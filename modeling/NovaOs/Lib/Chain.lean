import Mathlib.Data.Fintype.Card

/-!
# Chains of nodes linked by a `next` pointer

`Linked` relates a pointer to the nodes it leads to, in order. A chain is walked with a bound on the number of
steps, which is enough when no node occurs twice. Nodes outside a chain may hold stale pointers: they do not matter
to it.
-/

namespace Lib

variable {κ : Type*}

/-- The nodes of the chain that starts at a pointer, in order; the pointer of the last node is `none`. -/
def Linked (next : κ → Option κ) : Option κ → List κ → Prop
  | ptr, [] => ptr = none
  | ptr, k :: ks => ptr = some k ∧ Linked next (next k) ks

/-- Walk a chain to the first node with `p`. The answer is `none` when the walk has not ended after `fuel` nodes. -/
def search (next : κ → Option κ) (p : κ → Bool) : Nat → Option κ → Option (Option κ)
  | _, none => some none
  | 0, some _ => none
  | fuel + 1, some k => if p k then some (some k) else search next p fuel (next k)

theorem search_eq_find? {next : κ → Option κ} {p : κ → Bool} {ks : List κ} {ptr : Option κ}
    (h : Linked next ptr ks) {fuel : Nat} (hfuel : ks.length ≤ fuel) :
    search next p fuel ptr = some (ks.find? p) := by
  induction ks generalizing ptr fuel with
  | nil =>
      cases h
      simp [search]
  | cons k ks ih =>
      obtain ⟨rfl, hrest⟩ := h
      cases fuel with
      | zero => simp at hfuel
      | succ fuel =>
          rw [search, List.find?_cons]
          cases p k with
          | true => rfl
          | false => exact ih hrest (Nat.le_of_succ_le_succ hfuel)

/-- On a chain without repetitions there is fuel enough when there is as much as there are nodes at all. -/
theorem search_eq_find?_of_nodup [Fintype κ] {next : κ → Option κ} {p : κ → Bool} {ks : List κ} {ptr : Option κ}
    (h : Linked next ptr ks) (hnodup : ks.Nodup) :
    search next p (Fintype.card κ) ptr = some (ks.find? p) :=
  search_eq_find? h hnodup.length_le_card

/-- In a list that is searched by a key, each node is found by its own key exactly when no two have the same. -/
theorem find?_self_iff {α : Type*} [DecidableEq α] (key : κ → α) (ks : List κ) :
    (∀ k ∈ ks, (ks.find? fun j => key j = key k) = some k) ↔ ∀ k ∈ ks, ∀ j ∈ ks, key j = key k → j = k := by
  constructor
  · intro hfind k hk j hj he
    have hfound := hfind j hj
    rw [he, hfind k hk] at hfound
    exact (Option.some.inj hfound).symm
  · intro hinj k hk
    obtain ⟨j, hfound⟩ : ∃ j, (ks.find? fun j => key j = key k) = some j := by
      rw [← Option.isSome_iff_exists, List.find?_isSome]
      exact ⟨k, hk, by simp⟩
    have hkey : key j = key k := by simpa using List.find?_some hfound
    rw [hfound, hinj k hk j (List.mem_of_find?_eq_some hfound) hkey]

/-! ## What a pointer leads to -/

theorem Linked.unique {next : κ → Option κ} {ptr : Option κ} {ks ks' : List κ} (h : Linked next ptr ks)
    (h' : Linked next ptr ks') : ks = ks' := by
  induction ks generalizing ptr ks' with
  | nil =>
      cases h
      cases ks' with
      | nil => rfl
      | cons k' ks' => cases h'.1
  | cons k ks ih =>
      obtain ⟨rfl, hrest⟩ := h
      cases ks' with
      | nil => cases h'
      | cons k' ks' =>
          obtain ⟨hk, hrest'⟩ := h'
          cases hk
          rw [ih hrest hrest']

/-- A chain reads the pointers of its own nodes only. -/
theorem Linked.congr {next next' : κ → Option κ} {ptr : Option κ} {ks : List κ} (h : Linked next ptr ks)
    (hnext : ∀ k ∈ ks, next' k = next k) : Linked next' ptr ks := by
  induction ks generalizing ptr with
  | nil => exact h
  | cons k ks ih =>
      obtain ⟨rfl, hrest⟩ := h
      refine ⟨rfl, ?_⟩
      rw [hnext k List.mem_cons_self]
      exact ih hrest fun j hj => hnext j (List.mem_cons_of_mem k hj)

/-- The pointer of the node that ends the part `ks` of a chain. -/
theorem Linked.append_right {next : κ → Option κ} {ptr : Option κ} {ks : List κ} {k : κ} {rest : List κ}
    (h : Linked next ptr (ks ++ k :: rest)) : Linked next (next k) rest := by
  induction ks generalizing ptr with
  | nil => exact h.2
  | cons j ks ih => exact ih h.2

/-- When the pointers of the part `ks` are those of another chain, whatever list a pointer leads to starts with it. -/
theorem Linked.exists_append {next next' : κ → Option κ} {ptr : Option κ} {ks rest : List κ} {k : κ}
    (h : Linked next ptr (ks ++ k :: rest)) (hks : ∀ j ∈ ks, next' j = next j) {l : List κ} (h' : Linked next' ptr l) :
    ∃ rest', l = ks ++ k :: rest' ∧ Linked next' (next' k) rest' := by
  induction ks generalizing ptr l with
  | nil =>
      obtain ⟨rfl, _⟩ := h
      cases l with
      | nil => cases h'
      | cons i l =>
          obtain ⟨hi, hrest'⟩ := h'
          cases hi
          exact ⟨l, rfl, hrest'⟩
  | cons j ks ih =>
      obtain ⟨rfl, hrest⟩ := h
      cases l with
      | nil => cases h'
      | cons i l =>
          obtain ⟨hi, hrest'⟩ := h'
          cases hi
          rw [hks j List.mem_cons_self] at hrest'
          obtain ⟨rest', rfl, hlinked⟩ := ih hrest (fun i hi => hks i (List.mem_cons_of_mem j hi)) hrest'
          exact ⟨rest', rfl, hlinked⟩

/-- A pointer leads to no node twice. -/
theorem Linked.nodup {next : κ → Option κ} {ptr : Option κ} {ks : List κ} (h : Linked next ptr ks) : ks.Nodup := by
  induction ks generalizing ptr with
  | nil => exact List.nodup_nil
  | cons k ks ih =>
      obtain ⟨rfl, hrest⟩ := h
      refine List.nodup_cons.mpr ⟨fun hk => ?_, ih hrest⟩
      obtain ⟨before, after, rfl⟩ := List.append_of_mem hk
      have hlen := congrArg List.length (hrest.unique hrest.append_right)
      simp only [List.length_append, List.length_cons] at hlen
      omega

/-- A node that points back to the start of the chain that leads to it starts no chain. -/
theorem Linked.not_linked_of_back {next next' : κ → Option κ} {ptr : Option κ} {ks rest : List κ} {k : κ}
    (h : Linked next ptr (ks ++ k :: rest)) (hks : ∀ j ∈ ks, next' j = next j) (hback : next' k = ptr) (l : List κ) :
    ¬ Linked next' (some k) l := by
  intro hl
  cases l with
  | nil => cases hl
  | cons i l =>
      obtain ⟨hi, hl'⟩ := hl
      cases hi
      rw [hback] at hl'
      obtain ⟨rest', hl₁, hrest'⟩ := h.exists_append hks hl'
      rw [hback] at hrest'
      have hlen := congrArg List.length (hl₁.symm.trans (hl'.unique hrest'))
      simp only [List.length_append, List.length_cons] at hlen
      omega

/-! ## Cutting a chain -/

section

variable [DecidableEq κ]

/-- Clearing the pointer of a node ends the chain there. -/
theorem Linked.cut {next : κ → Option κ} {ks rest : List κ} {ptr : Option κ} {k : κ}
    (h : Linked next ptr (ks ++ k :: rest)) (hk : k ∉ ks) :
    Linked (Function.update next k none) ptr (ks ++ [k]) := by
  induction ks generalizing ptr with
  | nil =>
      obtain ⟨rfl, _⟩ := h
      exact ⟨rfl, Function.update_self ..⟩
  | cons j ks ih =>
      obtain ⟨rfl, hrest⟩ := h
      rw [List.mem_cons, not_or] at hk
      refine ⟨rfl, ?_⟩
      rw [Function.update_of_ne (Ne.symm hk.1)]
      exact ih hrest hk.2

end

/-! ## Taking a node out -/

theorem not_mem_of_nodup {ks rest : List κ} {k : κ} (h : (ks ++ k :: rest).Nodup) : k ∉ ks :=
  fun hk => (List.nodup_append.mp h).2.2 k hk k List.mem_cons_self rfl

section

variable [DecidableEq κ]

theorem erase_of_nodup {ks rest : List κ} {k : κ} (h : (ks ++ k :: rest).Nodup) :
    (ks ++ k :: rest).erase k = ks ++ rest := by
  rw [List.erase_append_right _ (not_mem_of_nodup h), List.erase_cons_head]

/-- Walk a chain to the node `k`, with the node that was passed before. The inner answer is `none` when the chain
does not have `k`, and otherwise the predecessor of `k`, which is `prev` for the first node. -/
def locate (next : κ → Option κ) (k : κ) : Nat → Option κ → Option κ → Option (Option (Option κ))
  | _, _, none => some none
  | 0, _, some _ => none
  | fuel + 1, prev, some j => if j = k then some (some prev) else locate next k fuel (some j) (next j)

theorem locate_eq_none {next : κ → Option κ} {ks : List κ} {ptr : Option κ} (h : Linked next ptr ks) {k : κ}
    (hk : k ∉ ks) {fuel : Nat} (hfuel : ks.length ≤ fuel) (prev : Option κ) :
    locate next k fuel prev ptr = some none := by
  induction ks generalizing ptr fuel prev with
  | nil =>
      cases h
      simp [locate]
  | cons j ks ih =>
      obtain ⟨rfl, hrest⟩ := h
      rw [List.mem_cons, not_or] at hk
      cases fuel with
      | zero => simp at hfuel
      | succ fuel =>
          rw [locate, if_neg (Ne.symm hk.1)]
          exact ih hrest hk.2 (Nat.le_of_succ_le_succ hfuel) _

theorem locate_eq_some {next : κ → Option κ} {ks rest : List κ} {ptr : Option κ} {k : κ}
    (h : Linked next ptr (ks ++ k :: rest)) (hk : k ∉ ks) {fuel : Nat} (hfuel : ks.length < fuel) (prev : Option κ) :
    locate next k fuel prev ptr = some (some (ks.getLast?.or prev)) := by
  induction ks generalizing ptr fuel prev with
  | nil =>
      obtain ⟨rfl, _⟩ := h
      cases fuel with
      | zero => simp at hfuel
      | succ fuel =>
          rw [locate, if_pos rfl]
          rfl
  | cons j ks ih =>
      obtain ⟨rfl, hrest⟩ := h
      rw [List.mem_cons, not_or] at hk
      cases fuel with
      | zero => simp at hfuel
      | succ fuel =>
          rw [locate, if_neg (Ne.symm hk.1), ih hrest hk.2 (Nat.lt_of_succ_lt_succ hfuel) _, List.getLast?_cons]
          cases ks.getLast? with
          | none => rfl
          | some i => rfl

/-- The pointers after the node `k`, behind `prev`, was taken out of its chain. -/
def bypass (next : κ → Option κ) (k : κ) : Option κ → κ → Option κ
  | none => Function.update next k none
  | some prev => Function.update (Function.update next prev (next k)) k none

theorem bypass_of_ne {next : κ → Option κ} {k j : κ} {prev : Option κ} (hk : j ≠ k) (hprev : some j ≠ prev) :
    bypass next k prev j = next j := by
  cases prev with
  | none => rw [bypass, Function.update_of_ne hk]
  | some i => rw [bypass, Function.update_of_ne hk, Function.update_of_ne fun h => hprev (congrArg some h)]

theorem bypass_prev {next : κ → Option κ} {k i : κ} (hk : i ≠ k) : bypass next k (some i) i = next k := by
  rw [bypass, Function.update_of_ne hk, Function.update_self]

/-- Bypassing a node takes it out of its chain. -/
theorem Linked.bypass {next : κ → Option κ} {ks rest : List κ} {ptr : Option κ} {k : κ}
    (h : Linked next ptr (ks ++ k :: rest)) (hnodup : (ks ++ k :: rest).Nodup) :
    Linked (Lib.bypass next k ks.getLast?) (if ks = [] then next k else ptr) (ks ++ rest) := by
  induction ks generalizing ptr with
  | nil =>
      rw [List.nil_append, List.nodup_cons] at hnodup
      refine h.2.congr fun j hj => bypass_of_ne ?_ (by simp)
      rintro rfl
      exact hnodup.1 hj
  | cons j ks ih =>
      obtain ⟨rfl, hrest⟩ := h
      rw [List.cons_append, List.nodup_cons] at hnodup
      have hjk : j ≠ k := by
        rintro rfl
        exact hnodup.1 (by simp)
      rw [if_neg (List.cons_ne_nil _ _)]
      refine ⟨rfl, ?_⟩
      cases ks with
      | nil =>
          rw [List.getLast?_singleton, bypass_prev hjk]
          refine hrest.2.congr fun i hi => bypass_of_ne ?_ fun he => ?_
          · rintro rfl
            exact (List.nodup_cons.mp hnodup.2).1 hi
          · cases he
            exact hnodup.1 (List.mem_cons_of_mem _ hi)
      | cons i ks =>
          have hlast : (j :: i :: ks).getLast? = (i :: ks).getLast? := List.getLast?_cons_cons
          have hj : some j ≠ (i :: ks).getLast? := fun he =>
            hnodup.1 (List.mem_append_left _ (List.mem_of_getLast? he.symm))
          rw [hlast, bypass_of_ne hjk hj]
          have hrest' := ih hrest hnodup.2
          rwa [if_neg (List.cons_ne_nil _ _)] at hrest'

end

/-! ## Walks that end -/

theorem search_mono {next : κ → Option κ} {p : κ → Bool} {fuel fuel' : Nat} {ptr r : Option κ}
    (h : search next p fuel ptr = some r) (hle : fuel ≤ fuel') : search next p fuel' ptr = some r := by
  induction fuel generalizing fuel' ptr with
  | zero =>
      cases ptr with
      | none => cases fuel' <;> exact h
      | some k => cases h
  | succ fuel ih =>
      cases ptr with
      | none => cases fuel' <;> exact h
      | some k =>
          obtain ⟨fuel', rfl⟩ : ∃ m, fuel' = m + 1 := ⟨fuel' - 1, by omega⟩
          rw [search] at h ⊢
          split
          · next hp => rwa [if_pos hp] at h
          · next hp =>
              rw [if_neg hp] at h
              exact ih h (by omega)

/-- The pointers that a walk to the first node with `p` follows. -/
def followed (next : κ → Option κ) (p : κ → Bool) (k : κ) : Option κ := if p k then none else next k

theorem exists_linked_of_search {next : κ → Option κ} {p : κ → Bool} {fuel : Nat} {ptr r : Option κ}
    (h : search next p fuel ptr = some r) : ∃ ks, Linked (followed next p) ptr ks := by
  induction fuel generalizing ptr with
  | zero =>
      cases ptr with
      | none => exact ⟨[], rfl⟩
      | some k => cases h
  | succ fuel ih =>
      cases ptr with
      | none => exact ⟨[], rfl⟩
      | some k =>
          rw [search] at h
          cases hp : p k with
          | true => exact ⟨[k], rfl, by simp [followed, hp, Linked]⟩
          | false =>
              rw [hp, if_neg Bool.false_ne_true] at h
              obtain ⟨ks, hks⟩ := ih h
              exact ⟨k :: ks, rfl, by simpa [followed, hp] using hks⟩

theorem exists_search_of_linked {next : κ → Option κ} {p : κ → Bool} {ks : List κ} {ptr : Option κ}
    (h : Linked (followed next p) ptr ks) {fuel : Nat} (hfuel : ks.length ≤ fuel) :
    ∃ r, search next p fuel ptr = some r := by
  induction ks generalizing ptr fuel with
  | nil =>
      cases h
      exact ⟨none, by simp [search]⟩
  | cons k ks ih =>
      obtain ⟨rfl, hrest⟩ := h
      obtain ⟨fuel, rfl⟩ : ∃ m, fuel = m + 1 := ⟨fuel - 1, by rw [List.length_cons] at hfuel; omega⟩
      rw [search]
      cases hp : p k with
      | true => exact ⟨some k, rfl⟩
      | false =>
          rw [followed, hp, if_neg Bool.false_ne_true] at hrest
          exact ih hrest (Nat.le_of_succ_le_succ hfuel)

/-- A walk that ends has ended after as many nodes as there are. -/
theorem search_card [Fintype κ] {next : κ → Option κ} {p : κ → Bool} {fuel : Nat} {ptr r : Option κ}
    (h : search next p fuel ptr = some r) : search next p (Fintype.card κ) ptr = some r := by
  obtain ⟨ks, hks⟩ := exists_linked_of_search h
  obtain ⟨r', hr'⟩ := exists_search_of_linked hks hks.nodup.length_le_card
  rcases Nat.le_total fuel (Fintype.card κ) with hle | hle
  · exact search_mono h hle
  · rw [hr', ← h, search_mono hr' hle]

section

variable [DecidableEq κ]

theorem locate_mono {next : κ → Option κ} {k : κ} {fuel fuel' : Nat} {prev ptr : Option κ} {r : Option (Option κ)}
    (h : locate next k fuel prev ptr = some r) (hle : fuel ≤ fuel') : locate next k fuel' prev ptr = some r := by
  induction fuel generalizing fuel' prev ptr with
  | zero =>
      cases ptr with
      | none => cases fuel' <;> exact h
      | some j => cases h
  | succ fuel ih =>
      cases ptr with
      | none => cases fuel' <;> exact h
      | some j =>
          obtain ⟨fuel', rfl⟩ : ∃ m, fuel' = m + 1 := ⟨fuel' - 1, by omega⟩
          rw [locate] at h ⊢
          split
          · next hj => rwa [if_pos hj] at h
          · next hj =>
              rw [if_neg hj] at h
              exact ih h (by omega)

theorem isSome_locate {next : κ → Option κ} {k : κ} (fuel : Nat) (prev ptr : Option κ) :
    (locate next k fuel prev ptr).isSome = (search next (fun j => j = k) fuel ptr).isSome := by
  induction fuel generalizing prev ptr with
  | zero => cases ptr <;> rfl
  | succ fuel ih =>
      cases ptr with
      | none => rfl
      | some j =>
          rw [locate, search]
          by_cases hj : j = k
          · simp [hj]
          · simpa [hj] using ih (some j) (next j)

theorem locate_card [Fintype κ] {next : κ → Option κ} {k : κ} {fuel : Nat} {prev ptr : Option κ}
    {r : Option (Option κ)} (h : locate next k fuel prev ptr = some r) :
    locate next k (Fintype.card κ) prev ptr = some r := by
  have hsearch : (search next (fun j => j = k) fuel ptr).isSome := by rw [← isSome_locate fuel prev, h]; rfl
  obtain ⟨found, hfound⟩ := Option.isSome_iff_exists.mp hsearch
  obtain ⟨r', hr'⟩ : ∃ r', locate next k (Fintype.card κ) prev ptr = some r' := by
    rw [← Option.isSome_iff_exists, isSome_locate, search_card hfound]
    rfl
  rcases Nat.le_total fuel (Fintype.card κ) with hle | hle
  · exact locate_mono h hle
  · rw [hr', ← h, locate_mono hr' hle]

end

/-! ## Pointers back -/

/-- Each node of the list points back to the one before it, and the first to `ptr`. -/
def BackLinked (prev : κ → Option κ) : Option κ → List κ → Prop
  | _, [] => True
  | ptr, k :: ks => prev k = ptr ∧ BackLinked prev (some k) ks

theorem Linked.eq_head? {next : κ → Option κ} {ptr : Option κ} {ks : List κ} (h : Linked next ptr ks) :
    ptr = ks.head? := by
  cases ks with
  | nil => exact h
  | cons k ks => exact h.1

theorem Linked.next_eq_head? {next : κ → Option κ} {ptr : Option κ} {ks rest : List κ} {k : κ}
    (h : Linked next ptr (ks ++ k :: rest)) : next k = rest.head? := h.append_right.eq_head?

/-- The nodes of a chain are linked both ways when the pointer back of each one is undone by the pointer on. -/
theorem Linked.backLinked_iff {next prev : κ → Option κ} {head ptr : Option κ} {ks : List κ} (h : Linked next head ks) :
    BackLinked prev ptr ks ↔
      (∀ k, head = some k → prev k = ptr) ∧ ∀ k ∈ ks, ∀ after, next k = some after → prev after = some k := by
  induction ks generalizing head ptr with
  | nil =>
      cases h
      simp [BackLinked]
  | cons k ks ih =>
      obtain ⟨rfl, hrest⟩ := h
      rw [BackLinked, ih hrest]
      simp

theorem BackLinked.congr {prev prev' : κ → Option κ} {ptr : Option κ} {ks : List κ} (h : BackLinked prev ptr ks)
    (hprev : ∀ k ∈ ks, prev' k = prev k) : BackLinked prev' ptr ks := by
  induction ks generalizing ptr with
  | nil => trivial
  | cons k ks ih =>
      obtain ⟨hk, hrest⟩ := h
      refine ⟨?_, ih hrest fun j hj => hprev j (List.mem_cons_of_mem k hj)⟩
      rw [hprev k List.mem_cons_self, hk]

theorem backLinked_append {prev : κ → Option κ} {ptr : Option κ} {ks js : List κ} :
    BackLinked prev ptr (ks ++ js) ↔ BackLinked prev ptr ks ∧ BackLinked prev (ks.getLast?.or ptr) js := by
  induction ks generalizing ptr with
  | nil => simp [BackLinked]
  | cons k ks ih =>
      have hlast : (k :: ks).getLast?.or ptr = ks.getLast?.or (some k) := by
        rw [List.getLast?_cons]
        cases ks.getLast? with
        | none => rfl
        | some i => rfl
      rw [List.cons_append, BackLinked, BackLinked, ih, hlast, and_assoc]

section

variable [DecidableEq κ]

/-- The pointers back after that of the node at `after`, if there is one, was set. -/
def setBack (prev : κ → Option κ) (after ptr : Option κ) : κ → Option κ :=
  match after with
  | none => prev
  | some k => Function.update prev k ptr

theorem setBack_of_ne {prev : κ → Option κ} {after ptr : Option κ} {k : κ} (h : after ≠ some k) :
    setBack prev after ptr k = prev k := by
  cases after with
  | none => rfl
  | some j => exact Function.update_of_ne (fun he => h (congrArg some he.symm)) ptr prev

theorem BackLinked.setBack_head {prev : κ → Option κ} {ptr : Option κ} {ks : List κ} (h : BackLinked prev ptr ks)
    (hnodup : ks.Nodup) (ptr' : Option κ) : BackLinked (setBack prev ks.head? ptr') ptr' ks := by
  cases ks with
  | nil => trivial
  | cons k ks =>
      rw [List.nodup_cons] at hnodup
      have hk : setBack prev (some k) ptr' k = ptr' := Function.update_self ..
      refine ⟨hk, h.2.congr fun j hj => setBack_of_ne ?_⟩
      rintro ⟨⟩
      exact hnodup.1 hj

/-- A node in front of the list points back to nothing, and what was first points back to it. -/
theorem BackLinked.cons {prev : κ → Option κ} {ptr : Option κ} {ks : List κ} (h : BackLinked prev ptr ks) {k : κ}
    (hnodup : (k :: ks).Nodup) : BackLinked (setBack prev ks.head? (some k)) (prev k) (k :: ks) := by
  rw [List.nodup_cons] at hnodup
  refine ⟨setBack_of_ne fun he => ?_, h.setBack_head hnodup.2 (some k)⟩
  exact hnodup.1 (List.mem_of_head? he)

/-- A node is taken out when the one behind it points back to the one before it. -/
theorem BackLinked.erase {prev : κ → Option κ} {ptr : Option κ} {ks rest : List κ} {k : κ}
    (h : BackLinked prev ptr (ks ++ k :: rest)) (hnodup : (ks ++ k :: rest).Nodup) :
    BackLinked (setBack prev rest.head? (ks.getLast?.or ptr)) ptr (ks ++ rest) := by
  rw [backLinked_append] at h ⊢
  obtain ⟨hks, _, hrest⟩ := h
  obtain ⟨_, hnodup', hdisjoint⟩ := List.nodup_append.mp hnodup
  constructor
  · refine hks.congr fun j hj => setBack_of_ne fun he => ?_
    exact hdisjoint j hj j (List.mem_cons_of_mem k (List.mem_of_head? he)) rfl
  · exact hrest.setBack_head (List.nodup_cons.mp hnodup').2 _

end

/-! ## Nodes that are alive or not -/

/-- The nodes that a walk to the first node with `p` looks at, when it looks at `fuel` of them at most. -/
def visited (next : κ → Option κ) (p : κ → Bool) : Nat → Option κ → List κ
  | _, none => []
  | 0, some _ => []
  | fuel + 1, some k => k :: if p k then [] else visited next p fuel (next k)

theorem mem_of_visited {next : κ → Option κ} {p : κ → Bool} {ks : List κ} {ptr : Option κ} (h : Linked next ptr ks)
    {fuel : Nat} {k : κ} (hk : k ∈ visited next p fuel ptr) : k ∈ ks := by
  induction ks generalizing ptr fuel with
  | nil =>
      cases h
      cases fuel <;> cases hk
  | cons j ks ih =>
      obtain ⟨rfl, hrest⟩ := h
      cases fuel with
      | zero => cases hk
      | succ fuel =>
          rw [visited, List.mem_cons] at hk
          rcases hk with rfl | hk
          · exact List.mem_cons_self
          · split at hk
            · cases hk
            · exact List.mem_cons_of_mem j (ih hrest hk)

/-- A walk reads the nodes that it visits only. -/
theorem search_congr {next next' : κ → Option κ} {p p' : κ → Bool} {fuel : Nat} {ptr : Option κ}
    (h : ∀ k ∈ visited next p fuel ptr, next' k = next k ∧ p' k = p k) :
    search next' p' fuel ptr = search next p fuel ptr ∧ visited next' p' fuel ptr = visited next p fuel ptr := by
  induction fuel generalizing ptr with
  | zero => cases ptr <;> exact ⟨rfl, rfl⟩
  | succ fuel ih =>
      cases ptr with
      | none => exact ⟨rfl, rfl⟩
      | some k =>
          obtain ⟨hnext, hp⟩ := h k List.mem_cons_self
          rw [search, search, visited, visited, hp, hnext]
          cases hpk : p k with
          | true => exact ⟨rfl, rfl⟩
          | false =>
              have hrest := @ih (next k) fun j hj => h j (by simp [visited, hpk, hj])
              simpa using hrest

section

variable [DecidableEq κ]

theorem locate_congr {next next' : κ → Option κ} {k : κ} {fuel : Nat} {prev ptr : Option κ}
    (h : ∀ j ∈ visited next (fun j => j = k) fuel ptr, next' j = next j) :
    locate next' k fuel prev ptr = locate next k fuel prev ptr := by
  induction fuel generalizing prev ptr with
  | zero => cases ptr <;> rfl
  | succ fuel ih =>
      cases ptr with
      | none => rfl
      | some j =>
          rw [locate, locate, h j List.mem_cons_self]
          by_cases hj : j = k
          · rw [if_pos hj, if_pos hj]
          · rw [if_neg hj, if_neg hj]
            exact ih fun i hi => h i (by simp [visited, hj, hi])

/-- The node that is located was visited, and so was the one before it. -/
theorem mem_visited_of_locate {next : κ → Option κ} {k : κ} {fuel : Nat} {prev ptr prev' : Option κ}
    (h : locate next k fuel prev ptr = some (some prev')) :
    k ∈ visited next (fun j => j = k) fuel ptr ∧
      ∀ j, prev' = some j → prev = some j ∨ j ∈ visited next (fun j => j = k) fuel ptr := by
  induction fuel generalizing prev ptr with
  | zero => cases ptr <;> cases h
  | succ fuel ih =>
      cases ptr with
      | none => cases h
      | some j =>
          rw [locate] at h
          rw [visited]
          by_cases hj : j = k
          · rw [if_pos hj] at h
            cases h
            exact ⟨by simp [hj], fun i hi => .inl hi⟩
          · rw [if_neg hj] at h
            obtain ⟨hk, hprev⟩ := ih h
            refine ⟨by simp [hj, hk], fun i hi => .inr ?_⟩
            rcases hprev i hi with hi' | hi'
            · simp [Option.some.inj hi']
            · simp [hj, hi']

/-- Free the nodes of a chain one after the other, each once its pointer was read. The answer is `none` when a node is
dead by then, or the walk has not ended after `fuel` nodes. -/
def freeChain (next : κ → Option κ) : Nat → Option κ → Finset κ → Option (Finset κ)
  | _, none, live => some live
  | 0, some _, _ => none
  | fuel + 1, some k, live => if k ∈ live then freeChain next fuel (next k) (live.erase k) else none

theorem freeChain_eq_some {next : κ → Option κ} {ks : List κ} {ptr : Option κ} (h : Linked next ptr ks)
    (hnodup : ks.Nodup) {fuel : Nat} (hfuel : ks.length ≤ fuel) {live : Finset κ} (hlive : ∀ k ∈ ks, k ∈ live) :
    freeChain next fuel ptr live = some (live \ ks.toFinset) := by
  induction ks generalizing ptr fuel live with
  | nil =>
      cases h
      cases fuel <;> simp [freeChain]
  | cons k ks ih =>
      obtain ⟨rfl, hrest⟩ := h
      obtain ⟨hk, hnodup⟩ := List.nodup_cons.mp hnodup
      obtain ⟨fuel, rfl⟩ : ∃ m, fuel = m + 1 := ⟨fuel - 1, by rw [List.length_cons] at hfuel; omega⟩
      have hlive' : ∀ j ∈ ks, j ∈ live.erase k := by
        intro j hj
        refine Finset.mem_erase.mpr ⟨?_, hlive j (List.mem_cons_of_mem k hj)⟩
        rintro rfl
        exact hk hj
      rw [freeChain, if_pos (hlive k List.mem_cons_self),
        ih hrest hnodup (Nat.le_of_succ_le_succ hfuel) hlive', List.toFinset_cons, Finset.erase_sdiff_comm,
        ← Finset.sdiff_insert]

/-- The pointer of a node that is freed is read while it is alive. -/
theorem freeChain_congr {next next' : κ → Option κ} {fuel : Nat} {ptr : Option κ} {live : Finset κ}
    (h : ∀ k ∈ live, next' k = next k) : freeChain next' fuel ptr live = freeChain next fuel ptr live := by
  induction fuel generalizing ptr live with
  | zero => cases ptr <;> rfl
  | succ fuel ih =>
      cases ptr with
      | none => rfl
      | some k =>
          rw [freeChain, freeChain]
          by_cases hk : k ∈ live
          · rw [if_pos hk, if_pos hk, h k hk]
            exact ih fun j hj => h j (Finset.mem_of_mem_erase hj)
          · rw [if_neg hk, if_neg hk]

theorem freeChain_subset {next : κ → Option κ} {fuel : Nat} {ptr : Option κ} {live live' : Finset κ}
    (h : freeChain next fuel ptr live = some live') : live' ⊆ live := by
  induction fuel generalizing ptr live with
  | zero =>
      cases ptr with
      | none =>
          cases h
          exact Finset.Subset.refl _
      | some k => cases h
  | succ fuel ih =>
      cases ptr with
      | none =>
          cases h
          exact Finset.Subset.refl _
      | some k =>
          rw [freeChain] at h
          split at h
          · exact (ih h).trans (Finset.erase_subset k live)
          · cases h

end

end Lib
