import NovaOs.Lib.Machine
import Mathlib.Data.Finset.Dedup
import Mathlib.Data.Finset.Card
import Mathlib.Data.List.TakeWhile

/-!
# Tables that nothing is taken out of

A table of bounded size takes in every key that it is asked for until it is full. Which keys it takes in, and so how it
answers each call, can be told from the calls alone.
-/

namespace Lib

variable {σ ι ο α : Type*} [DecidableEq α] {ks : List α} {k : α} {table : Finset α} {cap : Nat}

/-- How many other keys came before `k` came first. -/
def rank (ks : List α) (k : α) : Nat := (ks.takeWhile fun k' => k' ≠ k).toFinset.card

theorem rank_append_of_mem (hk : k ∈ ks) (ls : List α) : rank (ks ++ ls) k = rank ks k := by
  have hstops : ¬ (ks.takeWhile fun k' => k' ≠ k).length = ks.length := by
    intro hlen
    have hall := (List.takeWhile_prefix _).eq_of_length hlen
    have hself := List.takeWhile_eq_self_iff.mp hall k hk
    simp at hself
  rw [rank, List.takeWhile_append, if_neg hstops, rank]

theorem rank_append_of_notMem (hk : k ∉ ks) (ls : List α) : rank (ks ++ k :: ls) k = ks.toFinset.card := by
  have hall : ∀ k' ∈ ks, decide (k' ≠ k) = true := by
    intro k' hk'
    rw [decide_eq_true_iff]
    rintro rfl
    exact hk hk'
  rw [rank, List.takeWhile_append_of_pos hall, List.takeWhile_cons_of_neg (by simp), List.append_nil]

theorem rank_le_card (ks : List α) (k : α) : rank ks k ≤ ks.toFinset.card := by
  apply Finset.card_le_card
  intro k' hk'
  rw [List.mem_toFinset] at hk' ⊢
  exact List.takeWhile_subset _ hk'

theorem card_toFinset_concat (ks : List α) (k : α) :
    (ks ++ [k]).toFinset.card = if k ∈ ks then ks.toFinset.card else ks.toFinset.card + 1 := by
  have hconcat : (ks ++ [k]).toFinset = insert k ks.toFinset := by
    ext k'
    simp
  rw [hconcat, Finset.card_insert_eq_ite]
  simp only [List.mem_toFinset]

/-! ## The table after some keys -/

/-- The table has taken in what it could of the keys that came. -/
structure Admitted (table : Finset α) (cap : Nat) (ks : List α) : Prop where
  mem_iff : ∀ k, k ∈ table ↔ k ∈ ks ∧ rank ks k < cap
  card_eq : table.card = min cap ks.toFinset.card

namespace Admitted

theorem nil (cap : Nat) : Admitted (∅ : Finset α) cap [] where
  mem_iff k := by simp
  card_eq := by simp

theorem refused_iff (h : Admitted table cap ks) (k : α) :
    k ∉ table ∧ table.card = cap ↔ ¬ rank (ks ++ [k]) k < cap := by
  rw [h.mem_iff, h.card_eq]
  by_cases hk : k ∈ ks
  · have hle := rank_le_card ks k
    rw [rank_append_of_mem hk]
    simp only [hk, true_and]
    omega
  · rw [rank_append_of_notMem hk]
    simp only [hk, false_and, not_false_eq_true, true_and]
    omega

/-- Another key changes nothing for those that came. -/
theorem mem_concat_iff (h : Admitted table cap ks) {k' : α} (hne : k' ≠ k) :
    k' ∈ ks ++ [k] ∧ rank (ks ++ [k]) k' < cap ↔ k' ∈ table := by
  rw [h.mem_iff, List.mem_append, List.mem_singleton, or_iff_left hne]
  exact and_congr_right fun hmem => by rw [rank_append_of_mem hmem]

theorem accept (h : Admitted table cap ks) (hk : rank (ks ++ [k]) k < cap) :
    Admitted (insert k table) cap (ks ++ [k]) where
  mem_iff k' := by
    rcases eq_or_ne k' k with rfl | hne
    · simp [hk]
    · rw [h.mem_concat_iff hne, Finset.mem_insert, or_iff_right hne]
  card_eq := by
    have hcard := h.card_eq
    have hin := h.mem_iff k
    rw [card_toFinset_concat]
    by_cases hmem : k ∈ ks
    · rw [rank_append_of_mem hmem] at hk
      rw [if_pos hmem, Finset.insert_eq_of_mem (hin.mpr ⟨hmem, hk⟩), hcard]
    · rw [rank_append_of_notMem hmem] at hk
      rw [if_neg hmem, Finset.card_insert_of_notMem fun htable => hmem (hin.mp htable).1]
      omega

theorem refuse (h : Admitted table cap ks) (hk : ¬ rank (ks ++ [k]) k < cap) : Admitted table cap (ks ++ [k]) where
  mem_iff k' := by
    rcases eq_or_ne k' k with rfl | hne
    · simp only [((h.refused_iff k').mpr hk).1, hk, and_false]
    · exact (h.mem_concat_iff hne).symm
  card_eq := by
    have hcard := h.card_eq
    have hfull := ((h.refused_iff k).mpr hk).2
    rw [card_toFinset_concat]
    split
    · exact hcard
    · omega

end Admitted

/-! ## Runs -/

/-- A call with a new key is refused when the table is full. Every other call is accepted, and its key is then in the
table. -/
structure Admits (M : Machine σ ι ο) (key : ι → α) (cap : Nat) (Inv : σ → Prop) (table : σ → Finset α) (yes no : ο) :
    Prop where
  refuse : ∀ s i, Inv s → key i ∉ table s ∧ (table s).card = cap → M.out s i = no ∧ M.next s i = s
  accept : ∀ s i, Inv s → ¬ (key i ∉ table s ∧ (table s).card = cap) →
    M.out s i = yes ∧ Inv (M.next s i) ∧ table (M.next s i) = insert (key i) (table s)

namespace Admits

variable {M : Machine σ ι ο} {key : ι → α} {Inv : σ → Prop} {keys : σ → Finset α} {yes no : ο}

theorem trace_from (h : Admits M key cap Inv keys yes no) {s : σ} (hs : Inv s) (hks : Admitted (keys s) cap ks)
    (is : List ι) :
    M.trace s is = is.map (fun i => (i, if rank (ks ++ is.map key) (key i) < cap then yes else no)) := by
  induction is generalizing s ks with
  | nil => rfl
  | cons i is ih =>
      have hlast : key i ∈ ks ++ [key i] := List.mem_append_right ks (List.mem_singleton_self _)
      have happend : ks ++ (i :: is).map key = (ks ++ [key i]) ++ is.map key := by simp
      rw [Machine.trace_cons, happend, List.map_cons, rank_append_of_mem hlast]
      by_cases hk : rank (ks ++ [key i]) (key i) < cap
      · obtain ⟨hout, hs', hkeys⟩ := h.accept s i hs fun hfull => (hks.refused_iff _).mp hfull hk
        have hks' : Admitted (keys (M.next s i)) cap (ks ++ [key i]) := by
          rw [hkeys]
          exact hks.accept hk
        rw [if_pos hk, hout, ih hs' hks']
      · obtain ⟨hout, hnext⟩ := h.refuse s i hs ((hks.refused_iff _).mpr hk)
        rw [if_neg hk, hout, hnext, ih hs (hks.refuse hk)]

/-- From an empty table, a call is accepted when fewer than `cap` other keys came before its key came first. -/
theorem trace_eq (h : Admits M key cap Inv keys yes no) {s : σ} (hs : Inv s) (hempty : keys s = ∅) (is : List ι) :
    M.trace s is = is.map fun i => (i, if rank (is.map key) (key i) < cap then yes else no) := by
  have hnil : Admitted (keys s) cap [] := by
    rw [hempty]
    exact .nil cap
  exact h.trace_from hs hnil is

end Admits

end Lib
