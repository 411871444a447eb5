import Mathlib

set_option autoImplicit false

-- Finite maps as extensional tree maps: lookups after each way of updating
-- one, in terms of equality of keys.
namespace Tables

open Std

variable {α β γ : Type} {cmp : α → α → Ordering} [TransCmp cmp]

theorem mem_iff_lookup (t : ExtTreeMap α β cmp) (key : α) : key ∈ t ↔ ∃ value, t[key]? = some value := by
  rw [ExtTreeMap.mem_iff_isSome_getElem?, Option.isSome_iff_exists]

theorem size_erase_of_mem (t : ExtTreeMap α β cmp) (key : α) (member : key ∈ t) : (t.erase key).size + 1 = t.size := by
  have positive : t.size ≠ 0 := by
    intro zero
    rw [← ExtTreeMap.eq_empty_iff_size_eq_zero] at zero
    simp [zero] at member
  rw [ExtTreeMap.size_erase, if_pos (ExtTreeMap.mem_iff_contains.mp member)]
  omega

variable [LawfulEqCmp cmp]

theorem lookup_filter_keys (keep : α → Bool) (t : ExtTreeMap α β cmp) (query : α) :
    (t.filter (fun key _ => keep key))[query]? = if keep query then t[query]? else none := by
  by_cases kept : keep query = true
  · simp only [ExtTreeMap.getElem?_filter, ExtTreeMap.getKey_eq, kept, if_true]
    cases t[query]? <;> simp
  · simp [ExtTreeMap.getElem?_filter, kept]

theorem mem_insert_all (key : γ → α) (value : γ → β) (rows : List γ) (query : α) :
    query ∈ rows.foldl (fun m row => m.insert (key row) (value row)) (∅ : ExtTreeMap α β cmp) ↔
      ∃ row ∈ rows, key row = query := by
  suffices general : ∀ (t : ExtTreeMap α β cmp),
      query ∈ rows.foldl (fun m row => m.insert (key row) (value row)) t ↔ query ∈ t ∨ ∃ row ∈ rows, key row = query by
    simpa using general ∅
  induction rows with
  | nil => simp
  | cons row rest ih =>
      intro t
      rw [List.foldl_cons, ih, ExtTreeMap.mem_insert, LawfulEqCmp.compare_eq_iff_eq]
      simp only [List.exists_mem_cons_iff]
      tauto

theorem mem_insert_iff (t : ExtTreeMap α β cmp) (key query : α) (value : β) :
    query ∈ t.insert key value ↔ query = key ∨ query ∈ t := by
  rw [ExtTreeMap.mem_insert, LawfulEqCmp.compare_eq_iff_eq, eq_comm]

theorem mem_erase_iff (t : ExtTreeMap α β cmp) (key query : α) : query ∈ t.erase key ↔ query ≠ key ∧ query ∈ t := by
  rw [ExtTreeMap.mem_erase, ne_eq, LawfulEqCmp.compare_eq_iff_eq, eq_comm]

variable [DecidableEq α]

theorem lookup_insert (t : ExtTreeMap α β cmp) (key query : α) (value : β) :
    (t.insert key value)[query]? = if query = key then some value else t[query]? := by
  rw [ExtTreeMap.getElem?_insert]
  by_cases same : query = key
  · simp [same]
  · simp [LawfulEqCmp.compare_eq_iff_eq, same, Ne.symm same]

theorem insert_found (t : ExtTreeMap α β cmp) (key query : α) (value found : β)
    (stored : (t.insert key value)[query]? = some found) : query = key ∧ value = found ∨ t[query]? = some found := by
  rw [lookup_insert] at stored
  split at stored
  · rename_i here
    exact Or.inl ⟨here, Option.some.inj stored⟩
  · exact Or.inr stored

theorem lookup_erase (t : ExtTreeMap α β cmp) (key query : α) :
    (t.erase key)[query]? = if query = key then none else t[query]? := by
  rw [ExtTreeMap.getElem?_erase]
  by_cases same : query = key
  · simp [same]
  · simp [LawfulEqCmp.compare_eq_iff_eq, same, Ne.symm same]

theorem erase_found (t : ExtTreeMap α β cmp) (key query : α) (found : β) (stored : (t.erase key)[query]? = some found) :
    query ≠ key ∧ t[query]? = some found := by
  rw [lookup_erase] at stored
  split at stored
  · cases stored
  · rename_i other
    exact ⟨other, stored⟩

theorem lookup_erase_all (keys : List α) (t : ExtTreeMap α β cmp) (query : α) :
    (keys.foldl (fun m key => m.erase key) t)[query]? = if query ∈ keys then none else t[query]? := by
  induction keys generalizing t with
  | nil => simp
  | cons key rest ih =>
      rw [List.foldl_cons, ih, lookup_erase]
      by_cases here : query = key <;> by_cases later : query ∈ rest <;> simp [here, later]

theorem lookup_insert_all_some (key : γ → α) (value : γ → β) (rows : List γ) (query : α) (found : β)
    (present : (rows.foldl (fun m row => m.insert (key row) (value row)) (∅ : ExtTreeMap α β cmp))[query]? = some found) :
    ∃ row ∈ rows, key row = query ∧ value row = found := by
  suffices general : ∀ (t : ExtTreeMap α β cmp),
      (rows.foldl (fun m row => m.insert (key row) (value row)) t)[query]? = some found →
      (∃ row ∈ rows, key row = query ∧ value row = found) ∨ t[query]? = some found by
    cases general ∅ present with
    | inl hit => exact hit
    | inr empty => simp at empty
  clear present
  induction rows with
  | nil => exact fun t stored => Or.inr stored
  | cons row rest ih =>
      intro t stored
      rcases ih _ stored with ⟨r, member, hit⟩ | before
      · exact Or.inl ⟨r, List.mem_cons_of_mem row member, hit⟩
      · exact (insert_found _ _ _ _ _ before).imp_left (fun hit => ⟨row, List.mem_cons_self, hit.1.symm, hit.2⟩)

-- Rows that agree with a table reproduce it at their keys.
theorem lookup_insert_all_agree (key : γ → α) (value : γ → β) (rows : List γ) (t : ExtTreeMap α β cmp) (query : α)
    (agree : ∀ row ∈ rows, t[key row]? = some (value row)) (listed : ∃ row ∈ rows, key row = query) :
    (rows.foldl (fun m row => m.insert (key row) (value row)) (∅ : ExtTreeMap α β cmp))[query]? = t[query]? := by
  have member : query ∈ rows.foldl (fun m row => m.insert (key row) (value row)) (∅ : ExtTreeMap α β cmp) :=
    (mem_insert_all key value rows query).mpr listed
  obtain ⟨found, present⟩ := (mem_iff_lookup _ _).mp member
  obtain ⟨row, member, same, stored⟩ := lookup_insert_all_some key value rows query found present
  rw [present, ← same, agree row member, stored]

-- ---- the same table with every value mapped ----

theorem map_insert (f : β → γ) (t : ExtTreeMap α β cmp) (key : α) (value : β) :
    (t.insert key value).map (fun _ v => f v) = (t.map (fun _ v => f v)).insert key (f value) := by
  apply ExtTreeMap.ext_getElem?
  intro query
  rw [lookup_insert, ExtTreeMap.getElem?_map, ExtTreeMap.getElem?_map, lookup_insert]
  split <;> rfl

theorem map_erase (f : β → γ) (t : ExtTreeMap α β cmp) (key : α) :
    (t.erase key).map (fun _ v => f v) = (t.map (fun _ v => f v)).erase key := by
  apply ExtTreeMap.ext_getElem?
  intro query
  rw [lookup_erase, ExtTreeMap.getElem?_map, ExtTreeMap.getElem?_map, lookup_erase]
  split <;> rfl

theorem size_le_card (t : ExtTreeMap α β cmp) (bound : Finset α) (within : ∀ key, key ∈ t → key ∈ bound) :
    t.size ≤ bound.card := by
  rw [← ExtTreeMap.length_keys, ← List.toFinset_card_of_nodup ExtTreeMap.nodup_keys]
  apply Finset.card_le_card
  intro key member
  exact within key (ExtTreeMap.mem_keys.mp (List.mem_toFinset.mp member))

theorem card_le_size (t : ExtTreeMap α β cmp) (keys : Finset α) (within : ∀ key ∈ keys, key ∈ t) :
    keys.card ≤ t.size := by
  rw [← ExtTreeMap.length_keys, ← List.toFinset_card_of_nodup ExtTreeMap.nodup_keys]
  apply Finset.card_le_card
  intro key member
  exact List.mem_toFinset.mpr (ExtTreeMap.mem_keys.mpr (within key member))

end Tables
