/-
# FlopOffice.Lib.CounterLog — logs whose entries carry a key and a counter.

An entry is fresh for a log if its counter is above every counter the log has for its key. A log that
takes fresh entries only is ascending: the counters of one key increase, so no two entries have the same
key and the same counter. The high-water marks of the keys say all that freshness needs to know of the
log (`fresh_iff_mark`): a server that keeps the marks need not search its log.

Where every entry has a key of its own the counter is a cursor (`polls`): a reader that asks for what is
above the last counter it has seen reads a growing log without a gap and without a repetition, and with
the newest `n` of each answer only, exactly if no answer had more than `n`.
-/
import Mathlib.Data.List.Chain
import Mathlib.Data.List.DropRight
import Mathlib.Order.Lattice
import Mathlib.Tactic.Common

namespace FlopOffice.Lib

/-! ## Fresh entries -/

section Fresh

variable {α κ ν : Type} [LinearOrder ν] {key : α → κ} {ctr : α → ν}

/-- The counter of `e` is above every counter of its key. -/
def Fresh (key : α → κ) (ctr : α → ν) (log : List α) (e : α) : Prop :=
  ∀ x ∈ log, key x = key e → ctr x < ctr e

/-- The counters of every key increase. -/
def Ascending (key : α → κ) (ctr : α → ν) (log : List α) : Prop :=
  log.Pairwise fun x y => key x = key y → ctr x < ctr y

variable {log : List α} {e : α}

theorem Ascending.nil : Ascending key ctr [] := List.Pairwise.nil

/-- **What a log may take**: it stays ascending exactly if the new entry is fresh. -/
theorem ascending_append_iff :
    Ascending key ctr (log ++ [e]) ↔ Ascending key ctr log ∧ Fresh key ctr log e := by
  unfold Ascending Fresh
  rw [List.pairwise_append]
  simp

/-- **One entry for a key and a counter.** -/
theorem Ascending.unique (h : Ascending key ctr log) {x y : α} (hx : x ∈ log) (hy : y ∈ log)
    (hkey : key x = key y) (hctr : ctr x = ctr y) : x = y := by
  induction log with
  | nil => cases hx
  | cons z log ih =>
    obtain ⟨hz, hlog⟩ := List.pairwise_cons.mp h
    rcases List.mem_cons.mp hx with hxz | hxl
    · rcases List.mem_cons.mp hy with hyz | hyl
      · rw [hxz, hyz]
      · rw [hxz] at hkey hctr
        exact absurd hctr (hz y hyl hkey).ne
    · rcases List.mem_cons.mp hy with hyz | hyl
      · rw [hyz] at hkey hctr
        exact absurd hctr (hz x hxl hkey.symm).ne'
      · exact ih hlog hxl hyl

/-! ## High-water marks -/

/-- The last counter of a key, or `bottom`. -/
def mark [DecidableEq κ] (key : α → κ) (ctr : α → ν) (bottom : ν) (log : List α) (k : κ) : ν :=
  (((log.filter fun x => key x = k).getLast?).map ctr).getD bottom

variable [DecidableEq κ] {bottom : ν}

omit [LinearOrder ν] in
theorem mark_append (k : κ) :
    mark key ctr bottom (log ++ [e]) k = if key e = k then ctr e else mark key ctr bottom log k := by
  unfold mark
  rw [List.filter_append]
  split
  · rename_i hk
    simp [hk]
  · rename_i hk
    simp [hk]

theorem bottom_le_mark (h : ∀ x ∈ log, bottom ≤ ctr x) (k : κ) : bottom ≤ mark key ctr bottom log k := by
  unfold mark
  cases hlast : (log.filter fun x => key x = k).getLast? with
  | none => exact le_refl _
  | some x => exact h x (List.mem_of_mem_filter (List.mem_of_getLast? hlast))

/-- The mark is the largest counter of its key. -/
theorem Ascending.le_mark (h : Ascending key ctr log) {x : α} (hx : x ∈ log) :
    ctr x ≤ mark key ctr bottom log (key x) := by
  induction log using List.reverseRecOn with
  | nil => cases hx
  | append_singleton log z ih =>
    obtain ⟨hlog, hfresh⟩ := ascending_append_iff.mp h
    rw [mark_append]
    rcases List.mem_append.mp hx with hx | hx
    · split
      · rename_i hk
        exact (hfresh x hx hk.symm).le
      · exact ih hlog hx
    · rw [List.mem_singleton.mp hx, if_pos rfl]

/-- **Marks decide freshness**, of an entry above the bottom. -/
theorem fresh_iff_mark (h : Ascending key ctr log) (hbottom : bottom < ctr e) :
    Fresh key ctr log e ↔ mark key ctr bottom log (key e) < ctr e := by
  constructor
  · intro hf
    unfold mark
    cases hlast : (log.filter fun x => key x = key e).getLast? with
    | none => exact hbottom
    | some x =>
      have hx : x ∈ log.filter fun x => key x = key e := List.mem_of_getLast? hlast
      rw [List.mem_filter, decide_eq_true_eq] at hx
      exact hf x hx.1 hx.2
  · intro hlt x hx hk
    exact lt_of_le_of_lt (hk ▸ h.le_mark hx) hlt

end Fresh

/-! ## Cursors -/

section Cursor

variable {α ν : Type} [LinearOrder ν] {ctr : α → ν}

/-- What lies above a cursor; without a cursor everything does. -/
def above (ctr : α → ν) (since : Option ν) (rows : List α) : List α :=
  rows.filter fun x => since.all fun c => decide (c < ctr x)

/-- The cursor after an answer: its last counter, if it had one. -/
def advance (ctr : α → ν) (since : Option ν) (batch : List α) : Option ν :=
  (batch.getLast?.map ctr).or since

/-- The answers a reader gets that asks `rows₀`, `rows₁`, … for what is above its cursor, each cut by
`cut`. -/
def polls (ctr : α → ν) (cut : List α → List α) (since : Option ν) : List (List α) → List (List α)
  | [] => []
  | rows :: later =>
    let batch := cut (above ctr since rows)
    batch :: polls ctr cut (advance ctr since batch) later

variable {rows seen new : List α}

/-- Read so far: the cursor stands at the end of `seen`. -/
theorem above_append (h : (seen ++ new).Pairwise fun x y => ctr x < ctr y) :
    above ctr (seen.getLast?.map ctr) (seen ++ new) = new := by
  have hnew : ∀ x ∈ new, (seen.getLast?.map ctr).all (fun c => decide (c < ctr x)) = true := by
    intro x hx
    cases hlast : seen.getLast? with
    | none => rfl
    | some y => exact decide_eq_true ((List.pairwise_append.mp h).2.2 y (List.mem_of_getLast? hlast) x hx)
  have hseen : ∀ x ∈ seen, ¬ (seen.getLast?.map ctr).all (fun c => decide (c < ctr x)) = true := by
    intro x hx hall
    obtain ⟨init, last, rfl⟩ := List.eq_nil_or_concat' seen |>.resolve_left (List.ne_nil_of_mem hx)
    rw [List.getLast?_concat, Option.map_some] at hall
    have hlt : ctr last < ctr x := of_decide_eq_true hall
    rcases List.mem_append.mp hx with hx | hx
    · have hpair := (List.pairwise_append.mp (List.pairwise_append.mp h).1).2.2 x hx last (by simp)
      exact lt_asymm hlt hpair
    · rw [List.mem_singleton.mp hx] at hlt
      exact lt_irrefl _ hlt
  unfold above
  rw [List.filter_append, List.filter_eq_nil_iff.mpr hseen, List.filter_eq_self.mpr hnew,
    List.nil_append]

omit [LinearOrder ν] in
theorem advance_append : advance ctr (seen.getLast?.map ctr) new = (seen ++ new).getLast?.map ctr := by
  unfold advance
  rw [List.getLast?_append]
  cases new.getLast? <;> rfl

/-- Successive states of a log that only grows. -/
def Growing : List (List α) → Prop := List.IsChain fun rows rows' => rows <+: rows'

/-- **A cursor misses nothing and repeats nothing**: the answers, one after the other, are the log as it
was when it was last asked. -/
theorem flatten_polls {snapshots : List (List α)} (hgrow : Growing (seen :: snapshots))
    (hctr : ∀ rows ∈ snapshots, rows.Pairwise fun x y => ctr x < ctr y) :
    seen ++ (polls ctr id (seen.getLast?.map ctr) snapshots).flatten =
      (seen :: snapshots).getLast (List.cons_ne_nil _ _) := by
  induction snapshots generalizing seen with
  | nil => simp [polls]
  | cons rows later ih =>
    obtain ⟨⟨new, rfl⟩, hlater⟩ := List.isChain_cons_cons.mp hgrow
    have hbatch := above_append (hctr _ List.mem_cons_self)
    simp only [polls, id_eq, hbatch, advance_append, List.flatten_cons]
    rw [← List.append_assoc, ih hlater fun r hr => hctr r (List.mem_cons_of_mem _ hr),
      List.getLast_cons (List.cons_ne_nil _ _)]

omit [LinearOrder ν] in
/-- Cutting an answer to its newest entries does not move the cursor. -/
theorem advance_cut {n : Nat} (hn : 0 < n) (since : Option ν) (batch : List α) :
    advance ctr since (batch.drop (batch.length - n)) = advance ctr since batch := by
  unfold advance
  rw [List.getLast?_drop]
  split
  · rename_i hle
    have hnil : batch = [] := List.eq_nil_of_length_eq_zero (by omega)
    rw [hnil]
    rfl
  · rfl

theorem polls_cut {n : Nat} (hn : 0 < n) (since : Option ν) (snapshots : List (List α)) :
    polls ctr (fun batch => batch.drop (batch.length - n)) since snapshots =
      (polls ctr id since snapshots).map fun batch => batch.drop (batch.length - n) := by
  induction snapshots generalizing since with
  | nil => rfl
  | cons rows later ih =>
    simp only [polls, id_eq, List.map_cons]
    rw [advance_cut hn, ih]

omit [LinearOrder ν] in
/-- Cutting loses entries exactly where an answer was too long. -/
theorem flatten_cut_eq_iff {n : Nat} (batches : List (List α)) :
    (batches.map fun batch => batch.drop (batch.length - n)).flatten = batches.flatten ↔
      ∀ batch ∈ batches, batch.length ≤ n := by
  have hle : ∀ bs : List (List α), (bs.map fun batch => batch.drop (batch.length - n)).flatten.length ≤
      bs.flatten.length := by
    intro bs
    refine List.Sublist.length_le ?_
    induction bs with
    | nil => exact List.Sublist.refl _
    | cons b bs ih => exact (List.drop_sublist _ b).append ih
  induction batches with
  | nil => simp
  | cons b bs ih =>
    rw [List.forall_mem_cons, List.map_cons, List.flatten_cons, List.flatten_cons]
    constructor
    · intro h
      have hlen := congrArg List.length h
      rw [List.length_append, List.length_append, List.length_drop] at hlen
      have hrest := hle bs
      have hb : b.length ≤ n := by omega
      rw [Nat.sub_eq_zero_of_le hb, List.drop_zero] at h
      exact ⟨hb, ih.mp (List.append_cancel_left h)⟩
    · rintro ⟨hb, hbs⟩
      rw [Nat.sub_eq_zero_of_le hb, List.drop_zero, ih.mpr hbs]

end Cursor

end FlopOffice.Lib
