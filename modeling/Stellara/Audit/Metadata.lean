import Stellara.Audit.Model

/-!
# Metadata

What is signed of metadata that was read from a column.  It has the same values at the same places
as the metadata, but for what is under a key `__proto__`, and it does not depend on the order of the
members:

    (resigned parse a).SameBut "__proto__" (reread parse a)                    (resigned_sameBut)
    (reread parse a).Same (reread parse' b) → resigned parse a = resigned parse' b
                                                                               (resigned_congr)
-/

namespace Stellara.AuditService

open Json (Step)
open JsValue (ofJson reread)

variable {Number Numeral Numeral' : Type} {parse : Numeral → Option Number}
  {parse' : Numeral' → Option Number}

theorem sortItems_eq (items : List (JsValue Number)) : sortItems items = items.map sortObject := by
  induction items with
  | nil => rfl
  | cons item rest ih => rw [sortItems, ih, List.map_cons]

theorem sortMembers_eq (members : List (String × JsValue Number)) :
    sortMembers members = members.map fun member => (member.1, sortObject member.2) := by
  induction members with
  | nil => rfl
  | cons member rest ih => rw [sortMembers, ih, List.map_cons]

theorem sortObject_ne_undefined {value : JsValue Number} (h : value ≠ .undefined) :
    sortObject value ≠ .undefined := by
  cases value with
  | undefined => exact absurd rfl h
  | _ => exact nofun

/-- What is signed of a value that was read. -/
def resigned (parse : Numeral → Option Number) (a : Json Numeral) : Json Number :=
  (sortObject (ofJson parse a)).toJson

theorem resigned_array (items : List (Json Numeral)) :
    resigned parse (.array items) = .array (items.map (resigned parse)) := by
  unfold resigned
  rw [ofJson, sortObject, JsValue.toJson, JsValue.itemsOfJson_eq, sortItems_eq,
    JsValue.itemsToJson_eq, List.map_map, List.map_map]
  rfl

theorem resigned_object (members : List (String × Json Numeral)) :
    resigned parse (.object members) =
      .object (collect (fun key => (members.lookup key).map (resigned parse))
        (sortedKeys members)) := by
  have hlookup : ∀ key,
      (sortMembers (JsValue.membersOfJson parse members)).lookup key =
        (members.lookup key).map fun a => sortObject (ofJson parse a) := by
    intro key
    rw [sortMembers_eq, JsValue.membersOfJson_eq, List.map_map]
    exact lookup_map_snd (fun a => sortObject (ofJson parse a)) members key
  have hkeys : sortedKeys (JsValue.membersOfJson parse members) = sortedKeys members := by
    refine sortedKeys_congr fun key => ?_
    rw [JsValue.membersOfJson_eq, lookup_map_snd, Option.isSome_map]
  unfold resigned
  rw [ofJson, sortObject, JsValue.toJson, JsValue.membersToJson_eq, map_collect, hkeys]
  · congr 2
    funext key
    rw [hlookup, Option.map_map]
    rfl
  · refine forall_mem_collect (p := fun value : JsValue Number => value ≠ .undefined) ?_
    intro key value hvalue
    rw [hlookup] at hvalue
    obtain ⟨a, -, rfl⟩ := Option.map_eq_some_iff.mp hvalue
    exact sortObject_ne_undefined (JsValue.ofJson_ne_undefined a)

/-! ## The same values at the same places -/

theorem resigned_number (n : Numeral) : resigned parse (.number n) = reread parse (.number n) := by
  unfold resigned reread ofJson
  cases parse n <;> rfl

theorem node_resigned (a : Json Numeral) : (resigned parse a).node = (reread parse a).node := by
  cases a with
  | number n => rw [resigned_number]
  | array items =>
    rw [resigned_array, JsValue.reread_array]
    simp only [Json.node, List.length_map]
  | object members =>
    rw [resigned_object, JsValue.reread_object]
    rfl
  | _ => rfl

theorem child_reread_number (n : Numeral) (step : Step) :
    (reread parse (.number n)).child step = none := by
  unfold reread ofJson
  cases parse n <;> rfl

theorem child_reread (a : Json Numeral) (step : Step) :
    (reread parse a).child step = (a.child step).map (reread parse) := by
  cases a with
  | number n => exact child_reread_number n step
  | array items =>
    rw [JsValue.reread_array]
    cases step with
    | item i => exact List.getElem?_map
    | member key => rfl
  | object members =>
    rw [JsValue.reread_object]
    cases step with
    | item i => rfl
    | member key => exact lookup_map_snd (reread parse) members key
  | _ => rfl

/-- What is set as `__proto__` is lost. -/
theorem child_resigned (a : Json Numeral) {step : Step} (hstep : step ≠ .member "__proto__") :
    (resigned parse a).child step = (a.child step).map (resigned parse) := by
  cases a with
  | number n =>
    rw [resigned_number]
    exact child_reread_number n step
  | array items =>
    rw [resigned_array]
    cases step with
    | item i => exact List.getElem?_map
    | member key => rfl
  | object members =>
    rw [resigned_object]
    cases step with
    | item i => rfl
    | member key =>
      have hkey : key ≠ "__proto__" := fun h => hstep (by rw [h])
      show (collect _ _).lookup key = (members.lookup key).map (resigned parse)
      rw [lookup_collect]
      cases hlookup : members.lookup key <;> simp [mem_sortedKeys, hlookup, hkey]
  | _ => rfl

theorem resigned_sameBut (a : Json Numeral) :
    (resigned parse a).SameBut "__proto__" (reread parse a) := by
  intro path hpath
  induction path generalizing a with
  | nil => exact congrArg some (node_resigned a)
  | cons step path ih =>
    rw [List.mem_cons, not_or] at hpath
    unfold Json.nodeAt
    rw [child_resigned a (Ne.symm hpath.1), child_reread]
    cases a.child step with
    | none => rfl
    | some b => exact ih b hpath.2

/-! ## The order of the members -/

/-- Neither items nor members. -/
def Scalar (node : Json.Node Number) : Prop :=
  node ≠ .object ∧ ∀ length, node ≠ .array length

theorem resigned_of_scalar {a : Json Numeral} (h : Scalar (reread parse a).node) :
    resigned parse a = reread parse a := by
  cases a with
  | number n => exact resigned_number n
  | array items =>
    rw [JsValue.reread_array] at h
    exact absurd rfl (h.2 _)
  | object members =>
    rw [JsValue.reread_object] at h
    exact absurd rfl h.1
  | _ => rfl

theorem eq_of_node {a b : Json Number} (h : Scalar a.node) (hnode : a.node = b.node) : a = b := by
  cases a with
  | array items => exact absurd rfl (h.2 _)
  | object members => exact absurd rfl h.1
  | _ => cases b <;> cases hnode; rfl

theorem Same.child {a : Json Numeral} {b : Json Numeral'}
    (h : (reread parse a).Same (reread parse' b)) (step : Step) {x : Json Numeral}
    {y : Json Numeral'} (hx : a.child step = some x) (hy : b.child step = some y) :
    (reread parse x).Same (reread parse' y) := by
  refine @Json.Same.child _ _ _ _ _ step h ?_ ?_
  · rw [child_reread, hx, Option.map_some]
  · rw [child_reread, hy, Option.map_some]

theorem Same.isSome_child {a : Json Numeral} {b : Json Numeral'}
    (h : (reread parse a).Same (reread parse' b)) (step : Step) :
    (a.child step).isSome = (b.child step).isSome := by
  have hsome := Json.Same.isSome_child h step
  rwa [child_reread, child_reread, Option.isSome_map, Option.isSome_map] at hsome

theorem exists_items {a : Json Numeral} {length : Nat}
    (h : (reread parse a).node = .array length) :
    ∃ items, a = .array items ∧ items.length = length := by
  cases a with
  | array items =>
    rw [JsValue.reread_array] at h
    cases h
    exact ⟨items, rfl, (List.length_map _).symm⟩
  | object members =>
    rw [JsValue.reread_object] at h
    cases h
  | number n =>
    unfold reread ofJson at h
    cases hn : parse n <;> rw [hn] at h <;> cases h
  | _ => cases h

theorem exists_members {a : Json Numeral} (h : (reread parse a).node = .object) :
    ∃ members, a = .object members := by
  cases a with
  | array items =>
    rw [JsValue.reread_array] at h
    cases h
  | object members => exact ⟨members, rfl⟩
  | number n =>
    unfold reread ofJson at h
    cases hn : parse n <;> rw [hn] at h <;> cases h
  | _ => cases h

theorem resigned_congr_of_scalar {a : Json Numeral} {b : Json Numeral'}
    (h : (reread parse a).Same (reread parse' b)) (hs : Scalar (reread parse a).node) :
    resigned parse a = resigned parse' b := by
  have hnode : (reread parse a).node = (reread parse' b).node := Option.some.inj (h [])
  rw [resigned_of_scalar hs, resigned_of_scalar (hnode ▸ hs)]
  exact eq_of_node hs hnode

theorem resigned_congr {a : Json Numeral} {b : Json Numeral'}
    (h : (reread parse a).Same (reread parse' b)) : resigned parse a = resigned parse' b := by
  induction a using Json.induct generalizing b with
  | array items ih =>
    have hnode : (reread parse (.array items)).node = (reread parse' b).node :=
      Option.some.inj (h [])
    rw [JsValue.reread_array] at hnode
    obtain ⟨items', rfl, hlength⟩ := exists_items hnode.symm
    rw [List.length_map] at hlength
    rw [resigned_array, resigned_array]
    congr 1
    refine List.ext_getElem (by rw [List.length_map, List.length_map, hlength]) fun i hi hi' => ?_
    rw [List.length_map] at hi hi'
    rw [List.getElem_map, List.getElem_map]
    exact ih _ (List.getElem_mem hi) (Same.child h (.item i) (List.getElem?_eq_getElem hi)
      (List.getElem?_eq_getElem hi'))
  | object members ih =>
    have hnode : (reread parse (.object members)).node = (reread parse' b).node :=
      Option.some.inj (h [])
    rw [JsValue.reread_object] at hnode
    obtain ⟨members', rfl⟩ := exists_members hnode.symm
    have hkeys : ∀ key, (members.lookup key).isSome = (members'.lookup key).isSome :=
      fun key => Same.isSome_child h (.member key)
    rw [resigned_object, resigned_object, sortedKeys_congr hkeys]
    congr 1
    refine collect_congr fun key hkey => ?_
    obtain ⟨y, hy⟩ := Option.isSome_iff_exists.mp (mem_sortedKeys.mp hkey)
    obtain ⟨x, hx⟩ := Option.isSome_iff_exists.mp ((hkeys key).trans (mem_sortedKeys.mp hkey))
    rw [hx, hy, Option.map_some, Option.map_some]
    refine congrArg some (ih (key, x) ?_ (Same.child h (.member key) hx hy))
    obtain ⟨front, back, rfl, -⟩ := List.lookup_eq_some_iff.mp hx
    exact List.mem_append_right _ List.mem_cons_self
  | _ =>
    refine resigned_congr_of_scalar h ⟨fun hnode => ?_, fun length hnode => ?_⟩
    · obtain ⟨members, heq⟩ := exists_members hnode
      cases heq
    · obtain ⟨items, heq, -⟩ := exists_items hnode
      cases heq

end Stellara.AuditService
