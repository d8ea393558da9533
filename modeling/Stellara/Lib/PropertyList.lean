import Stellara.Lib.JavaScript

/-!
# Texts with listed properties

`JSON.stringify(value, keys)` writes of every object, at every depth, the properties that are in
`keys`, in this order.  Two values have the same text if they cannot be told apart along paths with
these keys only:

    select keys a = select keys b  ↔  SeenAlike keys a b                         (select_eq_iff)

A property is looked up as any property is, so that `__proto__` is inherited where an object has
none of its own.
-/

namespace Json

variable {Number : Type} {keys : List String}

/-- `Object.prototype`, of which `__proto__` is the only property that is no function. -/
def objectPrototype : Json Number := object [("__proto__", null)]

/-- A property of an object, its own or an inherited one; functions are left out. -/
def get (members : List (String × Json Number)) (key : String) : Option (Json Number) :=
  (members.lookup key).or (if key = "__proto__" then some objectPrototype else none)

mutual

/-- What `JSON.stringify(value, keys)` writes. -/
def select (keys : List String) : Json Number → Json Number
  | null => null
  | bool b => bool b
  | number n => number n
  | string s => string s
  | array items => array (selectItems keys items)
  | object members =>
    let selected := selectMembers keys members
    object (keys.filterMap fun key => (get selected key).map fun value => (key, value))

def selectItems (keys : List String) : List (Json Number) → List (Json Number)
  | [] => []
  | item :: rest => select keys item :: selectItems keys rest

def selectMembers (keys : List String) :
    List (String × Json Number) → List (String × Json Number)
  | [] => []
  | (key, value) :: rest => (key, select keys value) :: selectMembers keys rest

end

theorem selectItems_eq (items : List (Json Number)) :
    selectItems keys items = items.map (select keys) := by
  induction items with
  | nil => rfl
  | cons item rest ih => rw [selectItems, ih, List.map_cons]

theorem selectMembers_eq (members : List (String × Json Number)) :
    selectMembers keys members = members.map fun member => (member.1, select keys member.2) := by
  induction members with
  | nil => rfl
  | cons member rest ih => rw [selectMembers, ih, List.map_cons]

theorem mem_of_lookup_eq_some {members : List (String × Json Number)} {key : String}
    {x : Json Number} (h : members.lookup key = some x) : (key, x) ∈ members := by
  obtain ⟨front, back, rfl, -⟩ := List.lookup_eq_some_iff.mp h
  exact List.mem_append_right _ List.mem_cons_self

/-! ## Listed properties -/

section Listed

variable {α : Type} {value : String → Option α}

theorem lookup_filterMap (value : String → Option α) (keys : List String) (k : String) :
    (keys.filterMap fun key => (value key).map fun x => (key, x)).lookup k =
      if k ∈ keys then value k else none := by
  induction keys with
  | nil => rfl
  | cons key rest ih =>
    rw [List.filterMap_cons]
    cases hvalue : value key with
    | none =>
      rw [Option.map_none]
      dsimp only
      rw [ih]
      by_cases hk : k = key
      · rw [hk, hvalue]
        split <;> simp
      · simp [hk]
    | some x =>
      rw [Option.map_some]
      dsimp only
      rw [lookup_cons_ite, ih]
      by_cases hk : k = key
      · rw [if_pos hk, hk, hvalue, if_pos List.mem_cons_self]
      · simp [hk]

/-- Where all are there, they are the list. -/
theorem keys_filterMap (h : ∀ key ∈ keys, (value key).isSome) :
    (keys.filterMap fun key => (value key).map fun x => (key, x)).map Prod.fst = keys := by
  induction keys with
  | nil => rfl
  | cons key rest ih =>
    obtain ⟨x, hx⟩ := Option.isSome_iff_exists.mp (h key List.mem_cons_self)
    rw [List.filterMap_cons, hx]
    show key :: _ = key :: rest
    rw [ih fun key hkey => h key (List.mem_cons_of_mem _ hkey)]

theorem filterMap_congr {value' : String → Option α} (h : ∀ key ∈ keys, value key = value' key) :
    (keys.filterMap fun key => (value key).map fun x => (key, x)) =
      keys.filterMap fun key => (value' key).map fun x => (key, x) :=
  List.filterMap_congr fun key hkey => by rw [h key hkey]

/-- Where only one is there. -/
theorem filterMap_single {x : α} {k : String} (hmem : k ∈ keys) (hnodup : keys.Nodup) :
    (keys.filterMap fun key =>
      (if key = k then some x else none).map fun value => (key, value)) = [(k, x)] := by
  induction keys with
  | nil => cases hmem
  | cons key rest ih =>
    rw [List.nodup_cons] at hnodup
    rw [List.filterMap_cons]
    by_cases hkey : key = k
    · rw [if_pos hkey, Option.map_some]
      dsimp only
      rw [hkey, List.filterMap_eq_nil_iff.mpr]
      intro other hother
      have hother : other ≠ k := fun h => hnodup.1 (by rwa [hkey, ← h])
      rw [if_neg hother]
      rfl
    · rw [if_neg hkey, Option.map_none]
      exact ih ((List.mem_cons.mp hmem).resolve_left fun h => hkey h.symm) hnodup.2

end Listed

theorem get_objectPrototype (key : String) :
    get [("__proto__", (null : Json Number))] key =
      if key = "__proto__" then some null else none := by
  unfold get
  rw [lookup_cons_ite]
  split <;> rfl

/-- It has no properties but its own. -/
theorem select_objectPrototype (hmem : "__proto__" ∈ keys) (hnodup : keys.Nodup) :
    select keys (objectPrototype : Json Number) = objectPrototype := by
  have hget : ∀ key, get (selectMembers keys [("__proto__", (null : Json Number))]) key =
      if key = "__proto__" then some null else none := get_objectPrototype
  unfold objectPrototype
  rw [select]
  simp only [hget]
  rw [filterMap_single hmem hnodup]

/-- The properties of the object that are listed. -/
theorem select_object (hnodup : keys.Nodup) (members : List (String × Json Number)) :
    select keys (object members) = object (keys.filterMap fun key =>
      ((get members key).map (select keys)).map fun value => (key, value)) := by
  have hget : ∀ key ∈ keys,
      get (selectMembers keys members) key = (get members key).map (select keys) := by
    intro key hkey
    unfold get
    rw [selectMembers_eq, lookup_map_snd]
    cases members.lookup key with
    | some x => rfl
    | none =>
      rw [Option.map_none, Option.none_or]
      split
      · next hproto =>
        rw [Option.map_some, select_objectPrototype (hproto ▸ hkey) hnodup]
      · rfl
  rw [select]
  exact congrArg object (filterMap_congr hget)

/-! ## What is seen -/

/-- A path along listed keys. -/
def Within (keys : List String) (path : List Step) : Prop :=
  ∀ key, Step.member key ∈ path → key ∈ keys

/-- As `child`, with the properties that are inherited. -/
def seen : Json Number → Step → Option (Json Number)
  | array items, .item index => items[index]?
  | object members, .member key => get members key
  | _, _ => none

def seenAt : Json Number → List Step → Option (Node Number)
  | a, [] => some a.node
  | a, step :: path => (a.seen step).bind fun b => b.seenAt path

/-- Two values cannot be told apart along the listed keys. -/
def SeenAlike (keys : List String) (a b : Json Number) : Prop :=
  ∀ path, Within keys path → a.seenAt path = b.seenAt path

theorem node_select (a : Json Number) : (select keys a).node = a.node := by
  cases a with
  | array items =>
    rw [select, selectItems_eq]
    simp only [node, List.length_map]
  | object members =>
    rw [select]
    rfl
  | _ => rw [select]

theorem child_select (hnodup : keys.Nodup) (a : Json Number) {step : Step}
    (hstep : ∀ key, step = .member key → key ∈ keys) :
    (select keys a).child step = (a.seen step).map (select keys) := by
  cases a with
  | array items =>
    rw [select, selectItems_eq]
    cases step with
    | item i => exact List.getElem?_map
    | member key => rfl
  | object members =>
    rw [select_object hnodup]
    cases step with
    | item i => rfl
    | member key =>
      show (keys.filterMap _).lookup key = (get members key).map (select keys)
      rw [lookup_filterMap, if_pos (hstep key rfl)]
  | _ =>
    rw [select]
    cases step <;> rfl

theorem nodeAt_select (hnodup : keys.Nodup) {path : List Step} (hpath : Within keys path)
    (a : Json Number) : (select keys a).nodeAt path = a.seenAt path := by
  induction path generalizing a with
  | nil => exact congrArg some (node_select a)
  | cons step path ih =>
    unfold nodeAt seenAt
    rw [child_select hnodup a fun key hkey => hpath key (hkey ▸ List.mem_cons_self)]
    cases a.seen step with
    | none => rfl
    | some b => exact ih (fun key hkey => hpath key (List.mem_cons_of_mem _ hkey)) b

section SeenAlike

variable {a b x y : Json Number}

theorem SeenAlike.seen {step : Step} (h : SeenAlike keys a b)
    (hstep : ∀ key, step = .member key → key ∈ keys) (hx : a.seen step = some x)
    (hy : b.seen step = some y) : SeenAlike keys x y := by
  intro path hpath
  have hboth := h (step :: path) fun key hkey =>
    (List.mem_cons.mp hkey).elim (fun heq => hstep key heq.symm) (hpath key)
  unfold seenAt at hboth
  rwa [hx, hy] at hboth

theorem SeenAlike.isSome_seen {step : Step} (h : SeenAlike keys a b)
    (hstep : ∀ key, step = .member key → key ∈ keys) :
    (a.seen step).isSome = (b.seen step).isSome := by
  have hboth := congrArg Option.isSome (h [step] fun key hkey =>
    hstep key (List.mem_singleton.mp hkey).symm)
  unfold seenAt at hboth
  cases hx : a.seen step <;> cases hy : b.seen step <;> rw [hx, hy] at hboth <;>
    first | rfl | exact hboth

theorem SeenAlike.node_eq (h : SeenAlike keys a b) : a.node = b.node :=
  Option.some.inj (h [] nofun)

/-- Objects whose listed properties are written alike. -/
theorem select_object_congr (hnodup : keys.Nodup) {members members' : List (String × Json Number)}
    (h : SeenAlike keys (object members) (object members'))
    (heach : ∀ key ∈ keys, ∀ x, get members key = some x → ∀ y, SeenAlike keys x y →
      select keys x = select keys y) :
    select keys (object members) = select keys (object members') := by
  rw [select_object hnodup, select_object hnodup]
  refine congrArg object (filterMap_congr fun key hkey => ?_)
  have hstep : ∀ k, Step.member key = .member k → k ∈ keys := by
    rintro k ⟨⟩
    exact hkey
  have hsome : (get members key).isSome = (get members' key).isSome := h.isSome_seen hstep
  cases hx : get members key with
  | none =>
    rw [hx] at hsome
    cases hy : get members' key with
    | none => rfl
    | some y =>
      rw [hy] at hsome
      cases hsome
  | some x =>
    rw [hx] at hsome
    cases hy : get members' key with
    | none =>
      rw [hy] at hsome
      cases hsome
    | some y =>
      have hxy : SeenAlike keys x y := h.seen hstep hx hy
      rw [Option.map_some, Option.map_some, heach key hkey x hx y hxy]

/-- The members of `Object.prototype` are its own. -/
theorem select_objectPrototype_congr (hnodup : keys.Nodup)
    (h : SeenAlike keys (objectPrototype : Json Number) b) :
    select keys objectPrototype = select keys b := by
  have hnode : (node b : Node Number) = .object := h.node_eq.symm
  cases b with
  | object members =>
    refine select_object_congr hnodup h fun key _ x hx y hxy => ?_
    rw [get_objectPrototype] at hx
    split at hx
    · obtain rfl := Option.some.inj hx
      have hy := hxy.node_eq
      cases y <;> cases hy
      rfl
    · cases hx
  | _ => cases hnode

theorem SeenAlike.items (h : SeenAlike keys a b) {i : Nat} {step : Step} (hstep : step = .item i)
    (hx : a.seen step = some x) (hy : b.seen step = some y) : SeenAlike keys x y :=
  h.seen (by rintro key rfl; cases hstep) hx hy

end SeenAlike

/-- **What is written** is what is seen along the listed keys. -/
theorem select_eq_iff (hnodup : keys.Nodup) {a b : Json Number} :
    select keys a = select keys b ↔ SeenAlike keys a b := by
  constructor
  · intro h path hpath
    rw [← nodeAt_select hnodup hpath, ← nodeAt_select hnodup hpath, h]
  · induction a using induct generalizing b with
    | array items ih =>
      intro h
      have hnode := h.node_eq
      cases b with
      | array items' =>
        have hlength : items.length = items'.length := by
          injection hnode
        rw [select, select, selectItems_eq, selectItems_eq]
        congr 1
        refine List.ext_getElem (by rw [List.length_map, List.length_map, hlength])
          fun i hi hi' => ?_
        rw [List.getElem_map, List.getElem_map]
        rw [List.length_map] at hi hi'
        exact ih _ (List.getElem_mem hi) (h.items rfl (List.getElem?_eq_getElem hi)
          (List.getElem?_eq_getElem hi'))
      | _ => cases hnode
    | object members ih =>
      intro h
      have hnode := h.node_eq
      cases b with
      | object members' =>
        refine select_object_congr hnodup h fun key _ x hx y hxy => ?_
        rcases Option.or_eq_some_iff.mp hx with hown | ⟨-, hinherited⟩
        · exact ih (key, x) (mem_of_lookup_eq_some hown) hxy
        · split at hinherited
          · obtain rfl := Option.some.inj hinherited
            exact select_objectPrototype_congr hnodup hxy
          · cases hinherited
      | _ => cases hnode
    | _ =>
      intro h
      have hnode := h.node_eq
      cases b <;> cases hnode
      rfl

theorem seen_member (members : List (String × Json Number)) (key : String) :
    (object members).seen (.member key) =
      ((object members).child (.member key)).or
        (if key = "__proto__" then some objectPrototype else none) := rfl

/-- What is inherited is the same for all objects. -/
theorem seen_congr {a b : Json Number} (hnode : a.node = b.node) (step : Step)
    (ha : a.child step = none) (hb : b.child step = none) : a.seen step = b.seen step := by
  cases a with
  | object members =>
    cases b with
    | object members' =>
      cases step with
      | item i => rfl
      | member key => rw [seen_member, seen_member, ha, hb]
    | _ => cases hnode
  | array items =>
    cases b with
    | array items' =>
      cases step with
      | item i =>
        have ha : items[i]? = none := ha
        have hb : items'[i]? = none := hb
        show items[i]? = items'[i]?
        rw [ha, hb]
      | member key => rfl
    | _ => cases hnode
  | _ =>
    cases b <;> cases hnode
    rfl

theorem seen_of_child {a x : Json Number} {step : Step} (h : a.child step = some x) :
    a.seen step = some x := by
  cases a with
  | object members =>
    cases step with
    | item i => cases h
    | member key =>
      rw [seen_member, h]
      rfl
  | array items => cases step <;> exact h
  | _ => cases h

/-- Equal values are seen alike. -/
theorem Same.seenAt {a b : Json Number} (h : a.Same b) (path : List Step) :
    a.seenAt path = b.seenAt path := by
  induction path generalizing a b with
  | nil => exact h []
  | cons step path ih =>
    unfold Json.seenAt
    have hsome := h.isSome_child step
    cases hx : a.child step with
    | none =>
      rw [hx] at hsome
      cases hy : b.child step with
      | none => rw [seen_congr (Option.some.inj (h [])) step hx hy]
      | some y =>
        rw [hy] at hsome
        cases hsome
    | some x =>
      rw [hx] at hsome
      cases hy : b.child step with
      | none =>
        rw [hy] at hsome
        cases hsome
      | some y =>
        rw [seen_of_child hx, seen_of_child hy]
        exact ih (h.child hx hy)

end Json
