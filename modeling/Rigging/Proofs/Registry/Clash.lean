import Rigging.Proofs.Registry

/-!
# Clashes of names

Two entities clash when their names are equal but for case (`Pool.Clash`).  A pool with a clash has
no registry, and the error is about its first clash: the earliest entity whose name was used before,
and the one that used it first.  A pool without one has a registry that names every entity once
(`Registry.Complete`), and an identity has at most one candidate among its models, so the order of the
models does not matter to what an identity means.
-/

namespace Rigging

namespace Pool

/-- The names at two places, the second behind the first, are equal but for case. -/
def Clash (pool : Pool) (i j : Nat) : Prop :=
  i < j ∧ ∃ first second, pool[i]? = some first ∧ pool[j]? = some second ∧
    Text.lower first.name = Text.lower second.name

/-- The second place of the clash is the earliest of any clash, and the first place is the earliest
that the second one clashes with. -/
structure FirstClash (pool : Pool) (i j : Nat) : Prop where
  clash : pool.Clash i j
  repeats_first : ∀ i' j', pool.Clash i' j' → j ≤ j'
  used_first : ∀ i', pool.Clash i' j → i ≤ i'

/-- The names of a pool are different but for case exactly when none of them clash. -/
theorem nodup_lower_iff {pool : Pool} :
    (pool.map fun e => Text.lower e.name).Nodup ↔ ∀ i j, ¬ pool.Clash i j := by
  rw [List.nodup_iff_getElem?_ne_getElem?]
  constructor
  · rintro hne i j ⟨hlt, first, second, hi, hj, hname⟩
    have hlen : j < (pool.map fun e => Text.lower e.name).length := by
      rw [List.length_map]
      exact (List.getElem?_eq_some_iff.mp hj).1
    refine hne i j hlt hlen ?_
    rw [List.getElem?_map, List.getElem?_map, hi, hj, Option.map_some, Option.map_some, hname]
  · intro hnone i j hlt hlen heq
    rw [List.length_map] at hlen
    have hi : pool[i]? = some pool[i] := List.getElem?_eq_getElem (Nat.lt_trans hlt hlen)
    have hj : pool[j]? = some pool[j] := List.getElem?_eq_getElem hlen
    rw [List.getElem?_map, List.getElem?_map, hi, hj] at heq
    exact hnone i j ⟨hlt, _, _, hi, hj, Option.some.inj heq⟩

/-- A clash of a longer pool is one of the shorter pool, if both places are there. -/
theorem Clash.of_append {front back : Pool} {i j : Nat} (h : Clash (front ++ back) i j)
    (hj : j < front.length) : front.Clash i j := by
  obtain ⟨hlt, first, second, hfirst, hsecond, hname⟩ := h
  rw [List.getElem?_append_left (Nat.lt_trans hlt hj)] at hfirst
  rw [List.getElem?_append_left hj] at hsecond
  exact ⟨hlt, first, second, hfirst, hsecond, hname⟩

/-- The first clash, seen from the entity that repeats a name: those in front of it have different
names, and one of them has its name. -/
theorem firstClash_of_split {front back : Pool} {e : Entity} {i : Nat} {other : Entity}
    (hnodup : (front.map fun e => Text.lower e.name).Nodup) (hi : front[i]? = some other)
    (hname : Text.lower other.name = Text.lower e.name) :
    FirstClash (front ++ e :: back) i front.length := by
  have hlt : i < front.length := (List.getElem?_eq_some_iff.mp hi).1
  have hfront : (front ++ e :: back)[i]? = some other := by
    rw [List.getElem?_append_left hlt, hi]
  have hself : (front ++ e :: back)[front.length]? = some e := by simp
  have hnone := nodup_lower_iff.mp hnodup
  refine ⟨⟨hlt, other, e, hfront, hself, hname⟩, ?_, ?_⟩
  · intro i' j' hclash
    by_contra hbefore
    exact hnone i' j' (hclash.of_append (Nat.lt_of_not_le hbefore))
  · rintro i' ⟨hlt', first, second, hfirst, hsecond, hname'⟩
    by_contra hbefore
    -- both entities in front have the name of the one that repeats it, so they clash themselves
    cases hself.symm.trans hsecond
    refine hnone i' i ⟨Nat.lt_of_not_le hbefore, first, other, ?_, hi, hname'.trans hname.symm⟩
    rwa [List.getElem?_append_left hlt'] at hfirst

end Pool

namespace Registry

/-- What naming a pool has seen when it fails.  The entities in front of the one it fails at were
added to those seen, the last one first. -/
theorem addAll_error {pool : Pool} : ∀ {r : Registry} {seen : List (String × Entity)} {i : Nat}
    {err : Error}, r.addAll seen i pool = .error err →
    ∃ front e back other, pool = front ++ e :: back ∧
      Assoc.get? (Text.lower e.name)
        (front.reverse.map (fun e => (Text.lower e.name, e)) ++ seen) = some other ∧
      err = .duplicateEntity e.kind e.name e.filename e.owner other.filename other.owner ∧
      (front.map fun e => Text.lower e.name).Nodup ∧
      ∀ e ∈ front, Text.lower e.name ∉ Assoc.keys seen := by
  induction pool with
  | nil =>
    intro r seen i err h
    cases h
  | cons e rest ih =>
    intro r seen i err h
    rw [addAll] at h
    split at h
    · rename_i other hother
      cases h
      exact ⟨[], e, rest, other, rfl, hother, rfl, List.nodup_nil, fun _ hmem => by cases hmem⟩
    · rename_i hfresh
      have hnew := Assoc.get?_eq_none_iff.mp hfresh
      obtain ⟨front, e', back, other, hpool, hother, herr, hnodup, hseen⟩ := ih h
      refine ⟨e :: front, e', back, other, by rw [hpool]; rfl, ?_, herr,
        fresh_cons.mpr ⟨hnew, hnodup, hseen⟩⟩
      rwa [List.reverse_cons, List.map_append, List.append_assoc]

/-- A pool without a registry is told so about its first clash. -/
theorem ofPool_error {pool : Pool} {err : Error} (h : ofPool pool = .error err) :
    ∃ i j first second, pool.FirstClash i j ∧ pool[i]? = some first ∧ pool[j]? = some second ∧
      err = .duplicateEntity second.kind second.name second.filename second.owner
        first.filename first.owner := by
  obtain ⟨front, e, back, other, rfl, hother, herr, hnodup, -⟩ := addAll_error h
  have hmem := Assoc.mem_of_get?_eq_some hother
  rw [List.append_nil, List.mem_map] at hmem
  obtain ⟨other', hfront, hpair⟩ := hmem
  obtain ⟨hname, rfl⟩ := Prod.mk.inj hpair
  obtain ⟨i, hi⟩ := List.mem_iff_getElem?.mp (List.mem_reverse.mp hfront)
  have hlt : i < front.length := (List.getElem?_eq_some_iff.mp hi).1
  refine ⟨i, front.length, other', e, Pool.firstClash_of_split hnodup hi hname, ?_, ?_, herr⟩
  · rw [List.getElem?_append_left hlt, hi]
  · simp

/-- A registry names every entity of a pool once, under its own name, models and services apart and
each in the order of the pool. -/
structure Complete (r : Registry) (pool : Pool) : Prop where
  places : r.places.Perm (List.range pool.length)
  models : r.modelsIn pool = (pool.filter fun e => e.kind == .model).map fun e => (e.name, e)
  services : r.servicesIn pool = (pool.filter fun e => e.kind == .service).map fun e => (e.name, e)

theorem complete_of_ofPool {pool : Pool} {r : Registry} (h : ofPool pool = .ok r) :
    r.Complete pool := by
  obtain ⟨hnodup, hmem⟩ := places_of_ofPool h
  refine ⟨?_, modelsIn_eq h rfl, servicesIn_eq h rfl⟩
  refine (List.perm_ext_iff_of_nodup hnodup List.nodup_range).mpr fun i => ?_
  rw [hmem, List.mem_range]

end Registry

namespace Models

/-- The models whose names are an identity but for case. -/
def candidates (models : Models) (identity : String) : Models :=
  models.filter fun m => Text.lower m.1 == Text.lower identity

theorem withIdentity?_eq_head? (models : Models) (identity : String) :
    models.withIdentity? identity = (models.candidates identity).head?.map Prod.snd := by
  rw [withIdentity?, candidates, List.head?_filter]

theorem length_candidates_le_one {models : Models}
    (h : (models.map fun m => Text.lower m.1).Nodup) (identity : String) :
    (models.candidates identity).length ≤ 1 := by
  have hcount := List.nodup_iff_count_le_one.mp h (Text.lower identity)
  rw [List.count, List.countP_map] at hcount
  rwa [candidates, ← List.countP_eq_length_filter]

/-- An identity with at most one candidate means the same model in every order of the models. -/
theorem withIdentity?_of_perm {models models' : Models} {identity : String}
    (hone : (models.candidates identity).length ≤ 1) (hperm : models'.Perm models) :
    models'.withIdentity? identity = models.withIdentity? identity := by
  have hcandidates : (models'.candidates identity).Perm (models.candidates identity) :=
    hperm.filter _
  have hsame : models'.candidates identity = models.candidates identity := by
    cases hfound : models.candidates identity with
    | nil => exact List.perm_nil.mp (hfound ▸ hcandidates)
    | cons m rest =>
      rw [hfound, List.length_cons] at hone
      have hrest : rest = [] := List.eq_nil_of_length_eq_zero (by omega)
      rw [hfound, hrest] at hcandidates
      rw [hrest, List.perm_singleton.mp hcandidates]
  rw [withIdentity?_eq_head?, withIdentity?_eq_head?, hsame]

end Models

namespace Registry

theorem nodup_lower_modelsIn {pool : Pool} {r : Registry} (h : ofPool pool = .ok r) :
    ((r.modelsIn pool).map fun m => Text.lower m.1).Nodup := by
  rw [modelsIn_eq h rfl, List.map_map]
  exact (ofPool_eq h).2.sublist (List.filter_sublist.map _)

/-- **Registries are for names that do not clash.**  A pool has none exactly when two of its entities
clash, and is then told about its first clash.  Otherwise the registry misses no entity, and what an
identity means in it does not depend on the order of its models. -/
theorem ofPool_clash (pool : Pool) :
    ((∃ err, ofPool pool = .error err) ↔ ∃ i j, pool.Clash i j) ∧
    (∀ err, ofPool pool = .error err → err.family = .structural ∧
      ∃ i j first second, pool.FirstClash i j ∧ pool[i]? = some first ∧ pool[j]? = some second ∧
        err = .duplicateEntity second.kind second.name second.filename second.owner
          first.filename first.owner) ∧
    ∀ r, ofPool pool = .ok r → r.Complete pool ∧
      ∀ identity, ((r.modelsIn pool).candidates identity).length ≤ 1 ∧
        ∀ models : Models, models.Perm (r.modelsIn pool) →
          models.withIdentity? identity = (r.modelsIn pool).withIdentity? identity := by
  refine ⟨⟨?_, ?_⟩, ?_, ?_⟩
  · rintro ⟨err, herr⟩
    obtain ⟨i, j, _, _, hclash, _⟩ := ofPool_error herr
    exact ⟨i, j, hclash.clash⟩
  · rintro ⟨i, j, hclash⟩
    cases hr : ofPool pool with
    | error err => exact ⟨err, rfl⟩
    | ok r => exact absurd hclash (Pool.nodup_lower_iff.mp (ofPool_eq hr).2 i j)
  · intro err herr
    obtain ⟨i, j, first, second, hclash, hi, hj, rfl⟩ := ofPool_error herr
    exact ⟨rfl, i, j, first, second, hclash, hi, hj, rfl⟩
  · intro r hr
    refine ⟨complete_of_ofPool hr, fun identity => ?_⟩
    have hone := Models.length_candidates_le_one (nodup_lower_modelsIn hr) identity
    exact ⟨hone, fun models hperm => Models.withIdentity?_of_perm hone hperm⟩

end Registry

end Rigging
