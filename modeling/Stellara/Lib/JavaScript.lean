import Stellara.Lib.Calendar
import Stellara.Lib.Encoding
import Stellara.Lib.Json
import Mathlib.Data.List.Dedup
import Mathlib.Data.List.Induction
import Mathlib.Data.List.Lex
import Mathlib.Data.List.Sort

/-!
# JavaScript values

Strings in UTF-16, the order of the properties of an object, and values on their way to JSON and
back.  An object is the list of its properties, in the order in which they are enumerated: those
that are array indices come first and by number, the others in the order in which they were set.

    (setProperty members key value).lookup k                    (lookup_setProperty)
    sortedKeys members, from the keys alone                     (sortedKeys_congr)
-/

variable {Number Numeral α β : Type}

/-! ## UTF-16 -/

/-- The code units of a character. -/
def utf16Units (c : Char) : List Nat :=
  if c.toNat < 0x10000 then [c.toNat]
  else [0xD800 + (c.toNat - 0x10000) / 0x400, 0xDC00 + (c.toNat - 0x10000) % 0x400]

def utf16 (s : String) : List Nat := s.toList.flatMap utf16Units

theorem utf16Units_ne_nil (c : Char) : utf16Units c ≠ [] := by
  unfold utf16Units
  split <;> exact List.cons_ne_nil _ _

/-- No character is a surrogate. -/
theorem selfDelimiting_utf16Units : SelfDelimiting utf16Units := by
  intro c d u v h
  have hc : c.toNat < 0xD800 ∨ 0xDFFF < c.toNat ∧ c.toNat < 0x110000 := c.valid
  have hd : d.toNat < 0xD800 ∨ 0xDFFF < d.toNat ∧ d.toNat < 0x110000 := d.valid
  unfold utf16Units at h
  split at h <;> split at h
  · obtain ⟨hunit, hrest⟩ := List.cons.inj h
    exact ⟨Char.toNat_inj.mp hunit, hrest⟩
  · have := (List.cons.inj h).1
    omega
  · have := (List.cons.inj h).1
    omega
  · obtain ⟨hhigh, h⟩ := List.cons.inj h
    obtain ⟨hlow, hrest⟩ := List.cons.inj h
    exact ⟨Char.toNat_inj.mp (by omega), hrest⟩

theorem utf16_injective : Function.Injective utf16 := by
  intro s t h
  exact String.toList_inj.mp
    (selfDelimiting_utf16Units.flatMap_injective utf16Units_ne_nil h)

/-! ## White space -/

/-- `WhiteSpace` and `LineTerminator` of ECMAScript. -/
def isWhiteSpace (c : Char) : Bool :=
  c.toNat ∈ [0x09, 0x0A, 0x0B, 0x0C, 0x0D, 0x20, 0xA0, 0x1680, 0x2028, 0x2029, 0x202F, 0x205F,
    0x3000, 0xFEFF] ∨ 0x2000 ≤ c.toNat ∧ c.toNat ≤ 0x200A

/-- `String.prototype.trim` -/
def trim (s : String) : String :=
  String.ofList ((s.toList.dropWhile isWhiteSpace).reverse.dropWhile isWhiteSpace).reverse

/-! ## Properties -/

/-- The number of a key that is an array index, in decimal. -/
def arrayIndex (key : String) : Option Nat :=
  let n := key.toList.foldl (fun n c => 10 * n + (c.toNat - '0'.toNat)) 0
  if Nat.toDigits 10 n = key.toList ∧ n < 4294967295 then some n else none

/-- `result[key] = value` of an object of `Object.prototype`.  What is set as `__proto__` is no
property of the object's own. -/
def setProperty (result : List (String × α)) (key : String) (value : α) : List (String × α) :=
  if key = "__proto__" then result
  else if (result.lookup key).isSome then
    result.map fun member => if member.1 = key then (key, value) else member
  else
    match arrayIndex key with
    | none => result ++ [(key, value)]
    | some n =>
      result.takeWhile (fun member => (arrayIndex member.1).any (· < n)) ++
        (key, value) :: result.dropWhile fun member => (arrayIndex member.1).any (· < n)

theorem lookup_cons_ite (key : String) (value : α) (rest : List (String × α)) (k : String) :
    ((key, value) :: rest).lookup k = if k = key then some value else rest.lookup k := by
  rw [List.lookup_cons]
  split
  · next h => rw [if_pos (eq_of_beq h)]
  · next h => rw [if_neg (beq_eq_false_iff_ne.mp h)]

theorem lookup_map_snd (f : α → β) (members : List (String × α)) (key : String) :
    (members.map fun member => (member.1, f member.2)).lookup key = (members.lookup key).map f := by
  induction members with
  | nil => rfl
  | cons member rest ih =>
    rw [List.map_cons, List.lookup_cons, List.lookup_cons, ih]
    split <;> rfl

theorem lookup_insert {front back : List (String × α)} {key : String} (value : α)
    (hfront : front.lookup key = none) (k : String) :
    (front ++ (key, value) :: back).lookup k =
      if k = key then some value else (front ++ back).lookup k := by
  rw [List.lookup_append, List.lookup_append, lookup_cons_ite]
  split
  · next hk => rw [hk, hfront]; rfl
  · rfl

theorem lookup_replace (members : List (String × α)) (key : String) (value : α) (k : String) :
    (members.map fun member => if member.1 = key then (key, value) else member).lookup k =
      if k = key then (members.lookup k).map fun _ => value else members.lookup k := by
  induction members with
  | nil => split <;> rfl
  | cons member rest ih =>
    obtain ⟨key', value'⟩ := member
    rw [List.map_cons, lookup_cons_ite]
    by_cases hkey : key' = key
    · subst hkey
      rw [if_pos rfl, lookup_cons_ite, ih]
      split <;> rfl
    · rw [if_neg hkey, lookup_cons_ite, ih]
      by_cases hk : k = key'
      · subst hk
        rw [if_pos rfl, if_neg hkey, if_pos rfl]
      · rw [if_neg hk, if_neg hk]

theorem lookup_setProperty (result : List (String × α)) (key : String) (value : α) (k : String) :
    (setProperty result key value).lookup k =
      if k = key ∧ key ≠ "__proto__" then some value else result.lookup k := by
  unfold setProperty
  by_cases hproto : key = "__proto__"
  · rw [if_pos hproto, if_neg fun h => h.2 hproto]
  rw [if_neg hproto]
  simp only [hproto, ne_eq, not_false_eq_true, and_true]
  split
  · next hset =>
    rw [lookup_replace]
    split
    · next hk =>
      subst hk
      obtain ⟨old, hold⟩ := Option.isSome_iff_exists.mp hset
      rw [hold]
      rfl
    · rfl
  · next hset =>
    have hnone : result.lookup key = none := Option.not_isSome_iff_eq_none.mp hset
    cases arrayIndex key with
    | none =>
      dsimp only
      rw [lookup_insert value hnone, List.append_nil]
    | some n =>
      dsimp only
      rw [lookup_insert, List.takeWhile_append_dropWhile]
      rw [List.lookup_eq_none_iff] at hnone ⊢
      exact fun member hmember => hnone member (List.takeWhile_prefix _ |>.sublist.subset hmember)

theorem map_setProperty (f : α → β) (result : List (String × α)) (key : String) (value : α) :
    (setProperty result key value).map (fun member => (member.1, f member.2)) =
      setProperty (result.map fun member => (member.1, f member.2)) key (f value) := by
  unfold setProperty
  rw [lookup_map_snd, Option.isSome_map]
  split
  · rfl
  split
  · rw [List.map_map, List.map_map]
    refine List.map_congr_left fun member _ => ?_
    dsimp only [Function.comp_apply]
    split <;> rfl
  · cases arrayIndex key with
    | none => rw [List.map_append]; rfl
    | some n =>
      dsimp only
      rw [List.map_append, List.map_cons, List.takeWhile_map, List.dropWhile_map]
      rfl

theorem of_mem_setProperty {result : List (String × α)} {key : String} {value : α}
    {member : String × α} (h : member ∈ setProperty result key value) :
    member ∈ result ∨ member = (key, value) := by
  unfold setProperty at h
  split at h
  · exact .inl h
  split at h
  · obtain ⟨old, hold, heq⟩ := List.mem_map.mp h
    split at heq
    · exact .inr heq.symm
    · exact .inl (heq ▸ hold)
  · cases hindex : arrayIndex key with
    | none =>
      rw [hindex] at h
      exact (List.mem_append.mp h).imp_right List.mem_singleton.mp
    | some n =>
      rw [hindex] at h
      rcases List.mem_append.mp h with h | h
      · exact .inl (List.takeWhile_sublist _ |>.subset h)
      · exact (List.mem_cons.mp h).symm.imp_left fun h => List.dropWhile_sublist _ |>.subset h

/-- Nothing is set where there is no value. -/
def setSome (result : List (String × α)) (key : String) : Option α → List (String × α)
  | some value => setProperty result key value
  | none => result

theorem lookup_setSome (result : List (String × α)) (key : String) (x : Option α) (k : String) :
    (setSome result key x).lookup k =
      if k = key ∧ key ≠ "__proto__" then x.or (result.lookup k) else result.lookup k := by
  cases x with
  | none => exact (ite_self _).symm
  | some value => exact lookup_setProperty result key value k

theorem map_setSome (f : α → β) (result : List (String × α)) (key : String) (x : Option α) :
    (setSome result key x).map (fun member => (member.1, f member.2)) =
      setSome (result.map fun member => (member.1, f member.2)) key (x.map f) := by
  cases x with
  | none => rfl
  | some value => exact map_setProperty f result key value

/-- `keys.reduce((result, key) => { result[key] = …; return result; }, {})`, with what is set as
`value` says. -/
def collect (value : String → Option α) (keys : List String) : List (String × α) :=
  keys.foldl (fun result key => setSome result key (value key)) []

theorem lookup_collect (value : String → Option α) (keys : List String) (k : String) :
    (collect value keys).lookup k = if k ∈ keys ∧ k ≠ "__proto__" then value k else none := by
  unfold collect
  induction keys using List.reverseRecOn with
  | nil => rfl
  | append_singleton keys key ih =>
    have hmem : k ∈ keys ++ [key] ↔ k = key ∨ k ∈ keys := by
      rw [List.mem_append, List.mem_singleton, or_comm]
    rw [List.foldl_append, List.foldl_cons, List.foldl_nil, lookup_setSome, ih]
    simp only [hmem]
    by_cases hk : k = key
    · subst hk
      by_cases hproto : k = "__proto__"
      · simp [hproto]
      · cases value k <;> simp [hproto]
    · simp [hk]

theorem map_collect (f : α → β) (value : String → Option α) (keys : List String) :
    (collect value keys).map (fun member => (member.1, f member.2)) =
      collect (fun key => (value key).map f) keys := by
  unfold collect
  induction keys using List.reverseRecOn with
  | nil => rfl
  | append_singleton keys key ih =>
    rw [List.foldl_append, List.foldl_append, List.foldl_cons, List.foldl_cons, List.foldl_nil,
      List.foldl_nil, ← ih]
    exact map_setSome f _ key (value key)

/-- All values of the object were set. -/
theorem forall_mem_collect {value : String → Option α} {keys : List String} {p : α → Prop}
    (h : ∀ key x, value key = some x → p x) : ∀ member ∈ collect value keys, p member.2 := by
  unfold collect
  induction keys using List.reverseRecOn with
  | nil => exact nofun
  | append_singleton keys key ih =>
    rw [List.foldl_append, List.foldl_cons, List.foldl_nil]
    intro member hmember
    cases hvalue : value key with
    | none =>
      rw [hvalue] at hmember
      exact ih member hmember
    | some x =>
      rw [hvalue] at hmember
      rcases of_mem_setProperty hmember with hmember | rfl
      · exact ih member hmember
      · exact h key x hvalue

/-- What is set is all that is seen. -/
theorem collect_congr {value value' : String → Option α} {keys : List String}
    (h : ∀ key ∈ keys, value key = value' key) : collect value keys = collect value' keys := by
  unfold collect
  refine List.foldl_ext _ _ _ fun result key hkey => ?_
  rw [h key hkey]

/-- `Object.keys(members).sort()` -/
def sortedKeys (members : List (String × α)) : List String :=
  (members.map Prod.fst).dedup.insertionSort fun a b => utf16 a ≤ utf16 b

theorem mem_sortedKeys {members : List (String × α)} {key : String} :
    key ∈ sortedKeys members ↔ (members.lookup key).isSome := by
  unfold sortedKeys
  rw [List.mem_insertionSort, List.mem_dedup, List.mem_map, Option.isSome_iff_ne_none, Ne,
    List.lookup_eq_none_iff]
  push Not
  refine exists_congr fun member => and_congr_right fun _ => ?_
  rw [Ne, bne_iff_ne, Ne, not_not, eq_comm]

/-- The keys alone decide. -/
theorem sortedKeys_congr {members : List (String × α)} {members' : List (String × β)}
    (h : ∀ key, (members.lookup key).isSome = (members'.lookup key).isSome) :
    sortedKeys members = sortedKeys members' := by
  have : Std.Total fun a b => utf16 a ≤ utf16 b := ⟨fun a b => le_total _ _⟩
  have : IsTrans String fun a b => utf16 a ≤ utf16 b := ⟨fun _ _ _ => le_trans⟩
  have : Std.Antisymm fun a b => utf16 a ≤ utf16 b :=
    ⟨fun _ _ hab hba => utf16_injective (le_antisymm hab hba)⟩
  have hperm : (sortedKeys members).Perm (sortedKeys members') := by
    refine (List.perm_ext_iff_of_nodup ?_ ?_).mpr fun key => ?_
    · exact (List.perm_insertionSort _ _).nodup_iff.mpr (List.nodup_dedup _)
    · exact (List.perm_insertionSort _ _).nodup_iff.mpr (List.nodup_dedup _)
    · rw [mem_sortedKeys, mem_sortedKeys, h]
  exact hperm.eq_of_pairwise' (List.pairwise_insertionSort _ _) (List.pairwise_insertionSort _ _)

example : sortedKeys [("b", 0), ("10", 1), ("9", 2)] = ["10", "9", "b"] := by decide

example : collect (fun key => some key.length) ["10", "9", "__proto__", "b"] =
    [("9", 1), ("10", 2), ("b", 1)] := by decide

/-! ## Values -/

/-- What a program has before it is written as JSON: besides the values of JSON, `undefined`, dates,
and the numbers that are not finite. -/
inductive JsValue (Number : Type)
  | undefined
  | null
  | bool (b : Bool)
  | number (n : Number)
  | notFinite
  | string (s : String)
  | date (ms : Int)
  | array (items : List (JsValue Number))
  | object (members : List (String × JsValue Number))

namespace JsValue

mutual

/-- What `JSON.stringify` writes a value as: a date as its text; `undefined` not at all in an object
and as `null` in an array. -/
def toJson : JsValue Number → Json Number
  | undefined | null | notFinite => .null
  | bool b => .bool b
  | number n => .number n
  | string s => .string s
  | date ms => .string (isoString ms)
  | array items => .array (itemsToJson items)
  | object members => .object (membersToJson members)

def itemsToJson : List (JsValue Number) → List (Json Number)
  | [] => []
  | item :: rest => item.toJson :: itemsToJson rest

def membersToJson : List (String × JsValue Number) → List (String × Json Number)
  | [] => []
  | (_, undefined) :: rest => membersToJson rest
  | (key, value) :: rest => (key, value.toJson) :: membersToJson rest

end

section Parse

variable (parse : Numeral → Option Number)

mutual

/-- `JSON.parse`.  A numeral beyond the numbers is read as an infinity. -/
def ofJson : Json Numeral → JsValue Number
  | .null => null
  | .bool b => bool b
  | .number n =>
    match parse n with
    | some x => number x
    | none => notFinite
  | .string s => string s
  | .array items => array (itemsOfJson items)
  | .object members => object (membersOfJson members)

def itemsOfJson : List (Json Numeral) → List (JsValue Number)
  | [] => []
  | item :: rest => ofJson item :: itemsOfJson rest

def membersOfJson : List (String × Json Numeral) → List (String × JsValue Number)
  | [] => []
  | (key, value) :: rest => (key, ofJson value) :: membersOfJson rest

end

end Parse

theorem itemsToJson_eq (items : List (JsValue Number)) : itemsToJson items = items.map toJson := by
  induction items with
  | nil => rfl
  | cons item rest ih =>
    rw [itemsToJson, ih]
    rfl

theorem membersToJson_eq {members : List (String × JsValue Number)}
    (h : ∀ member ∈ members, member.2 ≠ undefined) :
    membersToJson members = members.map fun member => (member.1, member.2.toJson) := by
  induction members with
  | nil => rfl
  | cons member rest ih =>
    obtain ⟨key, value⟩ := member
    rw [membersToJson, ih fun member hmem => h member (List.mem_cons_of_mem _ hmem)]
    · rfl
    · exact h (key, value) List.mem_cons_self

variable {parse : Numeral → Option Number}

theorem itemsOfJson_eq (items : List (Json Numeral)) :
    itemsOfJson parse items = items.map (ofJson parse) := by
  induction items with
  | nil => rfl
  | cons item rest ih =>
    rw [itemsOfJson, ih]
    rfl

theorem membersOfJson_eq (members : List (String × Json Numeral)) :
    membersOfJson parse members = members.map fun member => (member.1, ofJson parse member.2) := by
  induction members with
  | nil => rfl
  | cons member rest ih =>
    rw [membersOfJson, ih]
    rfl

theorem ofJson_ne_undefined (a : Json Numeral) : ofJson parse a ≠ undefined := by
  cases a with
  | number n =>
    unfold ofJson
    split <;> exact nofun
  | _ => exact nofun

/-- A value as a program reads it, written again. -/
def reread (parse : Numeral → Option Number) (a : Json Numeral) : Json Number :=
  (ofJson parse a).toJson

@[simp] theorem reread_array (items : List (Json Numeral)) :
    reread parse (.array items) = .array (items.map (reread parse)) := by
  unfold reread
  rw [ofJson, toJson, itemsOfJson_eq, itemsToJson_eq, List.map_map]
  rfl

@[simp] theorem reread_object (members : List (String × Json Numeral)) :
    reread parse (.object members) =
      .object (members.map fun member => (member.1, reread parse member.2)) := by
  unfold reread
  rw [ofJson, toJson, membersOfJson_eq, membersToJson_eq, List.map_map]
  · rfl
  · intro member hmember
    obtain ⟨member', -, rfl⟩ := List.mem_map.mp hmember
    exact ofJson_ne_undefined _

theorem reread_some (a : Json Number) : reread some a = a := by
  induction a using Json.induct with
  | null | bool | number | string => rfl
  | array items ih =>
    rw [reread_array, List.map_congr_left ih, List.map_id']
  | object members ih =>
    rw [reread_object]
    congr 1
    exact (List.map_congr_left fun member hmember => by rw [ih member hmember]).trans (List.map_id' _)

end JsValue
