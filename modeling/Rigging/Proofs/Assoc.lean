import Mathlib.Data.List.Induction
import Rigging.Assoc
import Rigging.Proofs.Distinct

/-!
# Laws of ordered maps

What is found in a map, and what `put` and `ofPairs` make of its keys.  A key that is new comes last
(`put_of_not_mem`), one that is there keeps its place (`keys_put_of_mem`), so that the keys of a map
built from pairs stand in the order in which they first came (`keys_ofPairs`), each with its last
value (`get?_ofPairs`).
-/

namespace Rigging.Assoc

variable {α β : Type} [BEq α]

theorem ofPairs_concat (pairs : List (α × β)) (p : α × β) :
    ofPairs (pairs ++ [p]) = put p.1 p.2 (ofPairs pairs) := by
  rw [ofPairs, List.foldl_append]
  rfl

variable [LawfulBEq α]

/-! ### Looking up -/

theorem get?_eq_none_iff {key : α} {m : List (α × β)} : get? key m = none ↔ key ∉ keys m := by
  induction m with
  | nil => simp [get?, keys]
  | cons p rest ih =>
    obtain ⟨k, v⟩ := p
    rw [keys, List.map_cons, List.mem_cons, not_or, ← keys, ← ih, get?]
    by_cases hk : k = key
    · simp [hk]
    · simp [hk, Ne.symm hk]

theorem mem_of_get?_eq_some {key : α} {value : β} {m : List (α × β)}
    (h : get? key m = some value) : (key, value) ∈ m := by
  induction m with
  | nil => simp [get?] at h
  | cons p rest ih =>
    obtain ⟨k, v⟩ := p
    rw [get?] at h
    split at h
    · rename_i hk
      rw [eq_of_beq hk, Option.some.inj h]
      exact List.mem_cons_self
    · exact List.mem_cons_of_mem _ (ih h)

theorem get?_eq_some_of_mem {key : α} {value : β} {m : List (α × β)} (hm : (keys m).Nodup)
    (h : (key, value) ∈ m) : get? key m = some value := by
  induction m with
  | nil => cases h
  | cons p rest ih =>
    obtain ⟨k, v⟩ := p
    rw [keys, List.map_cons, List.nodup_cons] at hm
    rcases List.mem_cons.mp h with h | h
    · cases h
      simp [get?]
    · have hk : k ≠ key := fun he => hm.1 (he ▸ List.mem_map.mpr ⟨_, h, rfl⟩)
      rw [get?, beq_false_of_ne hk]
      exact ih hm.2 h

theorem get?_map {γ : Type} (f : β → γ) (key : α) (m : List (α × β)) :
    get? key (m.map fun p => (p.1, f p.2)) = (get? key m).map f := by
  induction m with
  | nil => rfl
  | cons p rest ih =>
    obtain ⟨k, v⟩ := p
    by_cases hk : k = key
    · simp [get?, hk]
    · simp [get?, hk, ih]

/-- A map with every key once is told by its keys and their values. -/
theorem eq_filterMap_keys {m : List (α × β)} (h : (keys m).Nodup) :
    m = (keys m).filterMap fun key => (get? key m).map fun value => (key, value) := by
  induction m with
  | nil => rfl
  | cons p rest ih =>
    obtain ⟨k, v⟩ := p
    rw [keys, List.map_cons, List.nodup_cons] at h
    have hrest : (keys rest).filterMap (fun key => (get? key ((k, v) :: rest)).map fun value =>
        (key, value)) = rest := by
      refine Eq.trans (List.filterMap_congr fun key hkey => ?_) (ih h.2).symm
      have hne : k ≠ key := fun he => h.1 (he ▸ hkey)
      rw [get?, beq_false_of_ne hne]
      rfl
    have hhead : get? k ((k, v) :: rest) = some v := by simp [get?]
    rw [keys, List.map_cons, List.filterMap_cons, hhead]
    exact congrArg _ hrest.symm

/-! ### Putting -/

theorem get?_put_self (key : α) (value : β) (m : List (α × β)) :
    get? key (put key value m) = some value := by
  induction m with
  | nil => simp [put, get?]
  | cons p rest ih =>
    obtain ⟨k, v⟩ := p
    by_cases h : k = key <;> simp [put, get?, h, ih]

theorem get?_put_of_ne {key other : α} (h : key ≠ other) (value : β)
    (m : List (α × β)) : get? other (put key value m) = get? other m := by
  induction m with
  | nil => simp [put, get?, h]
  | cons p rest ih =>
    obtain ⟨k, v⟩ := p
    by_cases hk : k = key
    · subst hk
      simp [put, get?, h]
    · by_cases ho : k = other
      · subst ho
        simp [put, get?, hk]
      · simp [put, get?, hk, ho, ih]

theorem put_of_not_mem {key : α} {m : List (α × β)} (h : key ∉ keys m) (value : β) :
    put key value m = m ++ [(key, value)] := by
  induction m with
  | nil => rfl
  | cons p rest ih =>
    obtain ⟨k, v⟩ := p
    rw [keys, List.map_cons, List.mem_cons, not_or] at h
    have hk : (k == key) = false := beq_false_of_ne (Ne.symm h.1)
    rw [put, hk, ih h.2]
    rfl

theorem keys_put_of_mem {key : α} {m : List (α × β)} (h : key ∈ keys m) (value : β) :
    keys (put key value m) = keys m := by
  induction m with
  | nil => cases h
  | cons p rest ih =>
    obtain ⟨k, v⟩ := p
    by_cases hk : k = key
    · simp [put, keys, hk]
    · have hrest : key ∈ keys rest := (List.mem_cons.mp h).resolve_left (Ne.symm hk)
      have hput := ih hrest
      simp only [keys] at hput
      simp [put, keys, hk, hput]

theorem put_put (key : α) (value value' : β) (m : List (α × β)) :
    put key value (put key value' m) = put key value m := by
  induction m with
  | nil => simp [put]
  | cons p rest ih =>
    obtain ⟨k, v⟩ := p
    by_cases hk : k = key
    · simp [put, hk]
    · simp [put, hk, ih]

/-! ### Maps built from pairs -/

/-- Pairs with different keys are the map that is built from them. -/
theorem ofPairs_of_nodup {pairs : List (α × β)} (h : (keys pairs).Nodup) : ofPairs pairs = pairs := by
  have hfold : ∀ ps m : List (α × β), (keys (m ++ ps)).Nodup →
      ps.foldl (fun m p => put p.1 p.2 m) m = m ++ ps := by
    intro ps
    induction ps with
    | nil => exact fun m _ => (List.append_nil m).symm
    | cons p ps ih =>
      intro m hnodup
      have hnew : p.1 ∉ keys m := by
        intro hmem
        rw [keys, List.map_append, List.nodup_append'] at hnodup
        exact hnodup.2.2 hmem (List.mem_map_of_mem List.mem_cons_self)
      rw [List.foldl_cons, put_of_not_mem hnew, ih _ (by rwa [List.append_assoc]), List.append_assoc]
      rfl
  exact hfold pairs [] h

/-- The keys of a map built from pairs stand in the order in which they first came. -/
theorem keys_ofPairs (pairs : List (α × β)) : keys (ofPairs pairs) = distinct (keys pairs) := by
  induction pairs using List.reverseRecOn with
  | nil => rfl
  | append_singleton pairs p ih =>
    have hdistinct : distinct (keys (pairs ++ [p])) =
        distinct (keys pairs) ++ [p.1].filter fun k => !(keys pairs).contains k := by
      rw [keys, List.map_append, distinct_append]
      rfl
    rw [ofPairs_concat, hdistinct]
    by_cases hmem : p.1 ∈ keys pairs
    · rw [keys_put_of_mem (by rwa [ih, mem_distinct]), ih]
      simp [hmem]
    · rw [put_of_not_mem (by rwa [ih, mem_distinct]), keys, List.map_append, ← keys, ih]
      simp [hmem]

/-- A map built from pairs holds the last value of every key. -/
theorem get?_ofPairs (key : α) (pairs : List (α × β)) :
    get? key (ofPairs pairs) = get? key pairs.reverse := by
  induction pairs using List.reverseRecOn with
  | nil => rfl
  | append_singleton pairs p ih =>
    obtain ⟨k, v⟩ := p
    rw [ofPairs_concat, List.reverse_append, List.reverse_singleton, List.singleton_append, get?]
    by_cases hk : k = key
    · rw [hk, get?_put_self, if_pos (beq_self_eq_true key)]
    · rw [get?_put_of_ne hk, if_neg (by simpa using hk), ih]

end Rigging.Assoc
