import Stellara.Lib.PropertyList
import Mathlib.Data.Option.Basic
import Mathlib.Logic.Equiv.Basic

/-!
# Idempotency keys

`IdempotencyService`.  A key is made of the text of an input with its keys sorted,

    JSON.stringify(input, Object.keys(input).sort())

which lists the keys of the input itself, so that of the objects in it only the members with such
keys are written:

    { order: { amount: 1 } }   →   {"order":{}}

Inputs that differ in nothing else have one key (`nested_collision`).
-/

namespace Stellara.IdempotencyService

open Json (Step)

variable {Number : Type}

/-- `Record<string, any>`, with what JSON has. -/
abbrev Record (Number : Type) : Type := List (String × Json Number)

/-- What the service is given: how numbers are written, and SHA-256 in hexadecimal. -/
structure Platform (Number : Type) where
  format : NumberFormat Number
  sha256 : String → String

variable (P : Platform Number)

/-- `JSON.stringify(obj, Object.keys(obj).sort())` -/
def stableStringify (obj : Record Number) : String :=
  String.ofList ((Json.select (sortedKeys obj) (.object obj)).text P.format)

/-- `new Date().toISOString().split('T')[0]` -/
def today (now : Int) : String := String.ofList ((isoChars now).takeWhile (· ≠ 'T'))

/-- A context that is missing is `undefined` in the data, which is not written. -/
def keyData (now : Int) (workflowType userId : String) (input : Record Number)
    (additionalContext : Option (Record Number)) : Record Number :=
  [("workflowType", .string workflowType), ("userId", .string userId),
    ("input", .string (stableStringify P input))] ++
  (additionalContext.map fun context =>
    ("additionalContext", .string (stableStringify P context))).toList ++
  [("timestamp", .string (today now))]

def generateWorkflowIdempotencyKey (now : Int) (workflowType userId : String)
    (input : Record Number) (additionalContext : Option (Record Number)) : String :=
  let data := keyData P now workflowType userId input additionalContext
  let hash := P.sha256 (stableStringify P data)
  "workflow:" ++ workflowType ++ ":" ++ userId ++ ":" ++ hash

/-! ## Equality and what is seen of it -/

/-- Equal as JSON values up to the order of keys. -/
def Equal (a b : Record Number) : Prop := (Json.object a).Same (.object b)

/-- The same keys, and nothing else along paths with these keys. -/
def Indistinct (a b : Record Number) : Prop :=
  sortedKeys a = sortedKeys b ∧ Json.SeenAlike (sortedKeys a) (.object a) (.object b)

variable {P} {a b : Record Number}

theorem nodup_sortedKeys (a : Record Number) : (sortedKeys a).Nodup :=
  (List.perm_insertionSort _ _).nodup_iff.mpr (List.nodup_dedup _)

theorem Equal.indistinct (h : Equal a b) : Indistinct a b :=
  ⟨sortedKeys_congr fun key => h.isSome_child (.member key), fun path _ => h.seenAt path⟩

/-- Its own keys are all written. -/
theorem select_keys (a : Record Number) :
    ∃ members, Json.select (sortedKeys a) (.object a) = .object members ∧
      members.map Prod.fst = sortedKeys a := by
  refine ⟨_, Json.select_object (nodup_sortedKeys a) a, Json.keys_filterMap fun key hkey => ?_⟩
  rw [Option.isSome_map]
  unfold Json.get
  rw [Option.isSome_or, mem_sortedKeys.mp hkey, Bool.true_or]

/-- **One text** is the same as nothing to tell apart. -/
theorem stableStringify_eq_iff : stableStringify P a = stableStringify P b ↔ Indistinct a b := by
  have htext : stableStringify P a = stableStringify P b ↔
      Json.select (sortedKeys a) (.object a) = Json.select (sortedKeys b) (.object b) :=
    ⟨fun h => Json.text_injective P.format (String.ofList_injective h), fun h => by
      unfold stableStringify
      rw [h]⟩
  rw [htext]
  constructor
  · intro h
    obtain ⟨members, ha, hkeys⟩ := select_keys a
    obtain ⟨members', hb, hkeys'⟩ := select_keys b
    have hmembers : members = members' := by
      rw [ha, hb] at h
      exact Json.object.inj h
    have hsame : sortedKeys a = sortedKeys b := by rw [← hkeys, ← hkeys', hmembers]
    refine ⟨hsame, (Json.select_eq_iff (nodup_sortedKeys a)).mp ?_⟩
    rw [h, hsame]
  · rintro ⟨hkeys, hseen⟩
    rw [← hkeys]
    exact (Json.select_eq_iff (nodup_sortedKeys a)).mpr hseen

theorem Indistinct.string_eq {s s' : String} (h : Indistinct a b) (key : String)
    (ha : a.lookup key = some (.string s)) (hb : b.lookup key = some (.string s')) : s = s' := by
  have hkey : key ∈ sortedKeys a := by
    rw [mem_sortedKeys, ha]
    rfl
  have hstep : ∀ k, Step.member key = .member k → k ∈ sortedKeys a := by
    rintro k ⟨⟩
    exact hkey
  have hseen := h.2.seen hstep (Json.seen_of_child ha) (Json.seen_of_child hb)
  have hnode := hseen.node_eq
  injection hnode

theorem Indistinct.isSome_lookup (h : Indistinct a b) (key : String) :
    (a.lookup key).isSome = (b.lookup key).isSome := by
  rw [Bool.eq_iff_iff, ← mem_sortedKeys, ← mem_sortedKeys, h.1]

section KeyData

variable {now now' : Int} {workflowType userId : String} {ca cb : Option (Record Number)}

theorem lookup_input : (keyData P now workflowType userId a ca).lookup "input" =
    some (.string (stableStringify P a)) := by
  cases ca <;> rfl

theorem lookup_additionalContext :
    (keyData P now workflowType userId a ca).lookup "additionalContext" =
      ca.map fun context => .string (stableStringify P context) := by
  cases ca <;> rfl

/-- The data are told apart by the texts in them. -/
theorem keyData_eq_iff (hday : today now = today now') :
    stableStringify P (keyData P now workflowType userId a ca) =
        stableStringify P (keyData P now' workflowType userId b cb) ↔
      stableStringify P a = stableStringify P b ∧
        ca.map (stableStringify P) = cb.map (stableStringify P) := by
  constructor
  · intro h
    have hdata := stableStringify_eq_iff.mp h
    refine ⟨hdata.string_eq "input" lookup_input lookup_input, ?_⟩
    have hsome := hdata.isSome_lookup "additionalContext"
    rw [lookup_additionalContext, lookup_additionalContext, Option.isSome_map,
      Option.isSome_map] at hsome
    cases ca with
    | none =>
      cases cb with
      | none => rfl
      | some y => cases hsome
    | some x =>
      cases cb with
      | none => cases hsome
      | some y =>
        exact congrArg some (hdata.string_eq "additionalContext" lookup_additionalContext
          lookup_additionalContext)
  · rintro ⟨hinput, hcontext⟩
    have hdata : keyData P now workflowType userId a ca =
        keyData P now' workflowType userId b cb := by
      unfold keyData
      rw [hinput, hday]
      congr 3
      have hpairs := congrArg (Option.map fun text : String =>
        (("additionalContext", .string text) : String × Json Number)) hcontext
      rwa [Option.map_map, Option.map_map] at hpairs
    rw [hdata]

/-- **One key** is the same as nothing to tell apart in the inputs and in the contexts. -/
theorem key_eq_iff (hsha : Function.Injective P.sha256) (hday : today now = today now') :
    generateWorkflowIdempotencyKey P now workflowType userId a ca =
        generateWorkflowIdempotencyKey P now' workflowType userId b cb ↔
      Indistinct a b ∧ Option.Rel Indistinct ca cb := by
  have hhash : generateWorkflowIdempotencyKey P now workflowType userId a ca =
        generateWorkflowIdempotencyKey P now' workflowType userId b cb ↔
      stableStringify P (keyData P now workflowType userId a ca) =
        stableStringify P (keyData P now' workflowType userId b cb) := by
    unfold generateWorkflowIdempotencyKey
    dsimp only
    rw [String.append_right_inj, hsha.eq_iff]
  rw [hhash, keyData_eq_iff hday, stableStringify_eq_iff]
  refine and_congr_right fun _ => ?_
  cases ca with
  | none =>
    cases cb with
    | none => exact ⟨fun _ => .none, fun _ => rfl⟩
    | some y => exact ⟨nofun, nofun⟩
  | some x =>
    cases cb with
    | none => exact ⟨nofun, nofun⟩
    | some y =>
      rw [Option.map_some, Option.map_some, Option.some.injEq, stableStringify_eq_iff]
      exact ⟨.some, fun | .some h => h⟩

/-- **The key is faithful** to two inputs and contexts exactly if they are equal when they have the
same keys and the same along paths with these keys. -/
theorem key_faithful_iff (hsha : Function.Injective P.sha256) (hday : today now = today now') :
    (generateWorkflowIdempotencyKey P now workflowType userId a ca =
        generateWorkflowIdempotencyKey P now' workflowType userId b cb ↔
      Equal a b ∧ Option.Rel Equal ca cb) ↔
    (Indistinct a b ∧ Option.Rel Indistinct ca cb → Equal a b ∧ Option.Rel Equal ca cb) := by
  rw [key_eq_iff hsha hday]
  refine ⟨Iff.mp, fun h => ⟨h, ?_⟩⟩
  rintro ⟨hinput, hcontext⟩
  refine ⟨hinput.indistinct, ?_⟩
  cases hcontext with
  | none => exact .none
  | some hsame => exact .some hsame.indistinct

end KeyData

/-! ## Examples -/

/-- Values without numbers. -/
def textsOnly : NumberFormat Empty :=
  ⟨Empty.elim, fun n => n.elim, fun n => n.elim, fun n => n.elim⟩

def trade (amount : String) : Record Empty := [("asset", .string "XLM"), ("amount", .string amount)]

/-- What is hashed for a trade. -/
def tradeData (amount : String) : String :=
  stableStringify ⟨textsOnly, id⟩
    (keyData ⟨textsOnly, id⟩ 0 "trade_execution" "user123" (trade amount) none)

/-- The digests of two trades. -/
def tradePlatform : Platform Empty where
  format := textsOnly
  sha256 :=
    Equiv.swap (tradeData "10") "4c51d110fcaee7e22d7a76a6fa178fe96c9779b6079098bd962f19bf246a5d37" ∘
      Equiv.swap (tradeData "20") "369cfffc2db9f997161016ab5a439ae17e7a3d72957b894f48fb0d8c20064bc4"

theorem sha256_injective : Function.Injective tradePlatform.sha256 :=
  (Equiv.injective _).comp (Equiv.injective _)

/-- Two trades of one day, at different times. -/
theorem key_faithful_trade :
    generateWorkflowIdempotencyKey tradePlatform 0 "trade_execution" "user123" (trade "10") none ≠
      generateWorkflowIdempotencyKey tradePlatform 5000 "trade_execution" "user123" (trade "20")
        none := by
  have hdistinct : ¬ Indistinct (trade "10") (trade "20") := fun h =>
    absurd (h.string_eq "amount" rfl rfl : "10" = "20") (by decide)
  intro h
  have hequal := ((key_faithful_iff sha256_injective (by decide)).mpr
    fun hseen => absurd hseen.1 hdistinct).mp h
  exact hdistinct hequal.1.indistinct

/-- An order with its asset inside. -/
def nested (asset : String) : Record Empty := [("order", .object [("asset", .string asset)])]

theorem nested_collision :
    ¬ (generateWorkflowIdempotencyKey tradePlatform 0 "trade_execution" "user123" (nested "XLM")
          none =
        generateWorkflowIdempotencyKey tradePlatform 0 "trade_execution" "user123" (nested "USDC")
          none ↔
      Equal (nested "XLM") (nested "USDC") ∧
        Option.Rel Equal (none : Option (Record Empty)) none) := by
  have htext : stableStringify tradePlatform (nested "XLM") =
      stableStringify tradePlatform (nested "USDC") := by decide +kernel
  have hkey : generateWorkflowIdempotencyKey tradePlatform 0 "trade_execution" "user123"
      (nested "XLM") none = generateWorkflowIdempotencyKey tradePlatform 0 "trade_execution"
      "user123" (nested "USDC") none := by
    unfold generateWorkflowIdempotencyKey keyData
    rw [htext]
  intro h
  have hnode := (h.mp hkey).1 [.member "order", .member "asset"]
  have hstring : (some (.string "XLM") : Option (Json.Node Empty)) = some (.string "USDC") := hnode
  exact absurd (Json.Node.string.inj (Option.some.inj hstring)) (by decide)

end Stellara.IdempotencyService
