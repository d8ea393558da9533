import Stellara.Audit.Metadata
import Stellara.Lib.HashChain

/-!
# The chain of entries

The walk finds no failure exactly when every entry names the hash of the entry before it and is
sealed: its hash and its signature are those of its contents (`verifyAuditChain_valid_iff`).  What is
signed of an entry determines the entry (`signedText_inj`), and what is stored of an entry whose
metadata signs alike as JSON is signed as the entry was (`signed_read`).
-/

namespace Stellara.AuditService

open Async (attempt_cases)
open Block
open JsValue (ofJson reread)
open Outcome (bind_eq_ok pure_eq_ok)

variable {Number Numeral Metadata : Type} (P : Platform Number Numeral)

/-- An entry with its metadata as it is signed. -/
def AuditLogEntry.signed (entry : Entry Number) : AuditLogEntry (Json Number) :=
  { entry.toAuditContent.signed with id := entry.id }

structure Sealed (entry : AuditContent (Json Number)) : Prop where
  hash : ∃ text, hashedText entry = .ok text ∧ entry.hash = P.sha256 text
  signature : ∃ text, signedText P.format entry = .ok text ∧ entry.signature = P.hmac text

/-- The entries are a chain from `start` on, and all sealed. -/
structure Verifies (start : String) (entries : List (AuditLogEntry (Json Number))) : Prop where
  linked : Linked (fun entry => entry.previousHash) (fun entry => entry.hash) start entries
  sealed : ∀ entry ∈ entries, Sealed P entry.toAuditContent

variable {P}

theorem linked_signed {start : String} {entries : List (Entry Number)} :
    Linked (fun entry => entry.previousHash) (fun entry => entry.hash) start
        (entries.map AuditLogEntry.signed) ↔
      Linked (fun entry => entry.previousHash) (fun entry => entry.hash) start entries :=
  Linked.map_iff (f := AuditLogEntry.signed)

/-! ## The walk -/

theorem computeHash_eq_ok {entry : AuditContent Metadata} {hash : String} :
    computeHash P entry = .ok hash ↔
      ∃ text, hashedText entry = .ok text ∧ hash = P.sha256 text := by
  unfold computeHash
  simp only [bind_eq_ok, pure_eq_ok, eq_comm (a := hash)]

theorem computeSignature_eq_ok {entry : AuditContent (JsValue Number)} {signature : String} :
    computeSignature P entry = .ok signature ↔
      ∃ text, signedText P.format entry.signed = .ok text ∧ signature = P.hmac text := by
  unfold computeSignature
  simp only [bind_eq_ok, pure_eq_ok, eq_comm (a := signature)]

theorem failures_eq_nil {p q r : Prop} [Decidable p] [Decidable q] [Decidable r] {a b c : Failure} :
    ((if p then [a] else []) ++ (if q then [b] else []) ++ if r then [c] else []) = [] ↔
      ¬p ∧ ¬q ∧ ¬r := by
  by_cases p <;> by_cases q <;> by_cases r <;> simp_all

theorem checkEntry_eq_nil {previousHash : String} {entry : Entry Number} :
    checkEntry P previousHash entry = .ok [] ↔
      entry.previousHash = previousHash ∧ Sealed P entry.signed.toAuditContent := by
  unfold checkEntry
  simp only [bind_eq_ok, pure_eq_ok, failures_eq_nil, not_not]
  constructor
  · rintro ⟨_, hhash, _, hsignature, rfl, rfl, rfl⟩
    exact ⟨rfl, computeHash_eq_ok.mp hhash, computeSignature_eq_ok.mp hsignature⟩
  · rintro ⟨rfl, hhash, hsignature⟩
    exact ⟨entry.hash, computeHash_eq_ok.mpr hhash, entry.signature,
      computeSignature_eq_ok.mpr hsignature, rfl, rfl, rfl⟩

theorem checkEntries_eq_nil {previousHash : String} {entries : List (Entry Number)} :
    checkEntries P previousHash entries = .ok [] ↔
      Verifies P previousHash (entries.map AuditLogEntry.signed) := by
  induction entries generalizing previousHash with
  | nil => exact ⟨fun _ => ⟨trivial, List.forall_mem_nil _⟩, fun _ => rfl⟩
  | cons entry rest ih =>
    unfold checkEntries
    simp only [bind_eq_ok, pure_eq_ok]
    constructor
    · rintro ⟨failures, hentry, more, hrest, h⟩
      obtain ⟨rfl, rfl⟩ := List.append_eq_nil_iff.mp h
      obtain ⟨rfl, hsealed⟩ := checkEntry_eq_nil.mp hentry
      have hrest := ih.mp hrest
      exact ⟨⟨rfl, hrest.linked⟩, List.forall_mem_cons.mpr ⟨hsealed, hrest.sealed⟩⟩
    · rintro ⟨⟨hprevious, hlinked⟩, hsealed⟩
      rw [List.map_cons, List.forall_mem_cons] at hsealed
      exact ⟨[], checkEntry_eq_nil.mpr ⟨hprevious, hsealed.1⟩, [],
        ih.mpr ⟨hlinked, hsealed.2⟩, rfl⟩

theorem perm_finds {tables : Tables Numeral} :
    (find P tables.archives ++ find P tables.logs).Perm
      ((tables.archives ++ tables.logs).map (Row.read P)) := by
  unfold find
  rw [List.map_append]
  exact ((List.perm_insertionSort _ _).map _).append ((List.perm_insertionSort _ _).map _)

theorem perm_getOrderedEntries {tables : Tables Numeral} :
    (getOrderedEntries P tables).Perm ((tables.archives ++ tables.logs).map (Row.read P)) :=
  (List.perm_insertionSort _ _).trans perm_finds

theorem mem_getOrderedEntries {tables : Tables Numeral} {entry : Entry Number} :
    entry ∈ getOrderedEntries P tables ↔
      ∃ row ∈ tables.archives ++ tables.logs, Row.read P row = entry := by
  rw [perm_getOrderedEntries.mem_iff, List.mem_map]

/-- A verification that ends and finds no failure. -/
def ReportsValid (P : Platform Number Numeral) (tables : Tables Numeral) : Prop :=
  ∃ result, verifyAuditChain P tables = .ok result ∧ result.valid = true

instance (tables : Tables Numeral) : Decidable (ReportsValid P tables) :=
  decidable_of_iff ((verifyAuditChain P tables).toOption.any AuditVerificationResult.valid) <| by
    unfold ReportsValid
    cases verifyAuditChain P tables with
    | error e => exact ⟨nofun, fun ⟨_, h, _⟩ => nomatch h⟩
    | ok result =>
      constructor
      · exact fun h => ⟨result, rfl, h⟩
      · rintro ⟨_, ⟨⟩, h⟩
        exact h

theorem verifyAuditChain_valid_iff {tables : Tables Numeral} :
    ReportsValid P tables ↔
      Verifies P "" ((getOrderedEntries P tables).map AuditLogEntry.signed) := by
  rw [← checkEntries_eq_nil]
  unfold ReportsValid verifyAuditChain
  simp only [bind_eq_ok, pure_eq_ok]
  constructor
  · rintro ⟨_, ⟨failures, hfailures, rfl⟩, hvalid⟩
    rw [hfailures, List.length_eq_zero_iff.mp (of_decide_eq_true hvalid)]
  · intro h
    exact ⟨_, ⟨[], h, rfl⟩, rfl⟩

/-! ## What is signed -/

theorem formatTimestamp_eq_ok {timestamp : Option Instant} {text : String} :
    formatTimestamp timestamp = .ok text ↔ ∃ t, timestamp = some t ∧ text = isoString t.ms := by
  cases timestamp with
  | none => exact ⟨nofun, fun ⟨_, h, _⟩ => nomatch h⟩
  | some t =>
    constructor
    · rintro ⟨⟩
      exact ⟨t, rfl, rfl⟩
    · rintro ⟨_, ⟨⟩, rfl⟩
      rfl

theorem hashedText_eq_ok {Metadata : Type} {entry : AuditContent Metadata} {text : String} :
    hashedText entry = .ok text ↔ ∃ t, entry.timestamp = some t ∧
      text = entry.previousHash ++ entry.action_type ++ entry.actor_id ++ isoString t.ms := by
  unfold hashedText
  simp only [bind_eq_ok, pure_eq_ok, formatTimestamp_eq_ok, eq_comm (a := text)]
  constructor
  · rintro ⟨_, ⟨t, ht, rfl⟩, h⟩
    exact ⟨t, ht, h⟩
  · rintro ⟨t, ht, h⟩
    exact ⟨_, ⟨t, ht, rfl⟩, h⟩

theorem isoString_inj {s t : Instant} (h : isoString s.ms = isoString t.ms) : s = t := by
  have hms := isoChars_inj s.valid t.valid (String.ofList_injective h)
  cases s
  cases t
  cases hms
  rfl

theorem elim_string_inj {x y : Option String}
    (h : (x.elim .null .string : Json Number) = y.elim .null .string) : x = y := by
  cases x <;> cases y <;> cases h <;> rfl

/-- What is signed determines the entry. -/
theorem signedText_inj {x y : AuditContent (Json Number)} {format : NumberFormat Number}
    {text : String} (hx : signedText format x = .ok text) (hy : signedText format y = .ok text) :
    x = { y with signature := x.signature } := by
  obtain ⟨_, hs, hx⟩ := bind_eq_ok.mp hx
  obtain ⟨_, ht, hy⟩ := bind_eq_ok.mp hy
  obtain ⟨s, htime, rfl⟩ := formatTimestamp_eq_ok.mp hs
  obtain ⟨t, htime', rfl⟩ := formatTimestamp_eq_ok.mp ht
  have hobject := Json.text_injective format (String.ofList_injective
    ((pure_eq_ok.mp hx).trans (pure_eq_ok.mp hy).symm))
  unfold signedObject at hobject
  injection hobject with hobject
  simp only [List.cons.injEq, Prod.mk.injEq, Json.string.injEq, true_and, and_true] at hobject
  obtain ⟨haction, hactor, hentity, hmetadata, hiso, hprevious, hhash⟩ := hobject
  have hentity := elim_string_inj hentity
  have htimestamp : x.timestamp = y.timestamp := by rw [htime, htime', isoString_inj hiso]
  cases x
  cases y
  dsimp only at *
  subst haction hactor hentity hmetadata htimestamp hprevious hhash
  rfl

/-! ## Storing -/

/-- A `jsonb` column gives a value back as it was, up to the order of members. -/
def Platform.Stores (P : Platform Number Numeral) : Prop :=
  ∀ a b, P.jsonb a = some b → (reread P.parse b).Same a

/-- The metadata is signed alike before it is written as JSON and after. -/
def JsonStable (P : Platform Number Numeral) (metadata : JsValue Number) : Prop :=
  (signedMetadata metadata).text P.format = (resigned some metadata.toJson).text P.format

instance (metadata : JsValue Number) : Decidable (JsonStable P metadata) :=
  inferInstanceAs (Decidable ((signedMetadata metadata).text P.format = _))

theorem signedMetadata_ofJson (a : Json Numeral) :
    signedMetadata (ofJson P.parse a) = resigned P.parse a := by
  have hnull : orNull (ofJson P.parse a) = ofJson P.parse a := by
    cases h : ofJson P.parse a with
    | undefined => exact absurd h (JsValue.ofJson_ne_undefined a)
    | _ => rfl
  unfold signedMetadata
  rw [hnull]
  rfl

theorem signedMetadata_read (hstores : P.Stores) {metadata : JsValue Number}
    {column : Option (Json Numeral)} (hstored : stored P metadata = some column)
    (hstable : JsonStable P metadata) :
    signedMetadata (column.elim .null (ofJson P.parse)) = signedMetadata metadata := by
  have hjson : ∀ b, P.jsonb metadata.toJson = some b →
      signedMetadata (ofJson P.parse b) = signedMetadata metadata := by
    intro b hb
    rw [signedMetadata_ofJson, Json.text_injective P.format hstable]
    refine resigned_congr ?_
    rw [JsValue.reread_some]
    exact hstores _ _ hb
  cases metadata with
  | undefined | null =>
    cases hstored
    rfl
  | _ =>
    obtain ⟨b, hb, rfl⟩ := Option.map_eq_some_iff.mp hstored
    exact hjson b hb

/-- What was stored of an entry is signed as the entry. -/
theorem signed_read (hstores : P.Stores) {id : Nat} {content : AuditContent (JsValue Number)}
    {row : Row Numeral} (hwrite : Row.write P id content = some row)
    (hstable : JsonStable P content.metadata) :
    (Row.read P row).signed = { content.signed with id } := by
  obtain ⟨column, hstored, rfl⟩ := Option.map_eq_some_iff.mp hwrite
  unfold AuditLogEntry.signed AuditContent.signed Row.read
  dsimp only
  rw [signedMetadata_read hstores hstored hstable]

/-- What was read is JSON. -/
theorem jsonStable_read (row : Row Numeral) : JsonStable P (Row.read P row).metadata := by
  unfold JsonStable Row.read
  dsimp only
  cases row.metadata with
  | none => rfl
  | some a =>
    have hsame : (reread P.parse a).Same (reread some (reread P.parse a)) := by
      rw [JsValue.reread_some]
      exact fun _ => rfl
    show (signedMetadata (ofJson P.parse a)).text P.format =
      (resigned some (reread P.parse a)).text P.format
    rw [signedMetadata_ofJson, resigned_congr hsame]

/-! ## Requests -/

theorem wp_ofExcept {α σ : Type} {T : Async.Rules (AuditRequest Number) AuditAnswer σ}
    {x : Except Error α} {Q : α → Unit → σ → Prop} {E : Error → Unit → σ → Prop} {s : σ}
    (hQ : ∀ a, x = .ok a → Q a () s) (hE : ∀ e, x = .error e → E e () s) :
    wp T (ofExcept x) Q E () s := by
  cases x with
  | ok a => exact hQ a rfl
  | error e => exact hE e rfl

theorem sealed_of_compute {log : AuditContent (JsValue Number)} {hash signature : String}
    (hhash : computeHash P log = .ok hash)
    (hsignature : computeSignature P { log with hash } = .ok signature) :
    Sealed P (AuditContent.signed { log with hash, signature }) :=
  ⟨computeHash_eq_ok.mp hhash, computeSignature_eq_ok.mp hsignature⟩

theorem forall₂_of_mapM {α β : Type} {f : α → Option β} {xs : List α} {ys : List β}
    (h : xs.mapM f = some ys) : List.Forall₂ (fun x y => f x = some y) xs ys := by
  induction xs generalizing ys with
  | nil =>
    cases h
    exact .nil
  | cons x xs ih =>
    rw [List.mapM_cons] at h
    obtain ⟨y, hy, h⟩ := Option.bind_eq_some_iff.mp h
    obtain ⟨ys, hys, h⟩ := Option.bind_eq_some_iff.mp h
    cases h
    exact .cons hy (ih hys)

/-- What became of logs that were to be archived. -/
theorem saveArchives_cases {c : Outside} {w w' : Tables Numeral} {archives : List (Entry Number)}
    {r : Except Error Unit} (h : answer P c w (.saveArchives archives) = some (r, w')) :
    (∃ e, r = .error e ∧ w' = w) ∨ (r = .ok () ∧ ∃ rows,
      List.Forall₂ (fun entry row => Row.write P entry.id entry.toAuditContent = some row) archives
        rows ∧ w' = { w with archives := upsert w.archives rows }) := by
  unfold answer at h
  dsimp only at h
  split at h
  · cases h
    exact .inl ⟨_, rfl, rfl⟩
  · next rows hrows =>
    rcases attempt_cases h with ⟨e, -, rfl, rfl⟩ | ⟨-, rfl, rfl⟩
    · exact .inl ⟨e, rfl, rfl⟩
    · exact .inr ⟨rfl, rows, forall₂_of_mapM hrows, rfl⟩

/-- What became of an entry that was to be saved. -/
theorem saveLog_cases {c : Outside} {w w' : Tables Numeral} {log : AuditContent (JsValue Number)}
    {r : Except Error (Entry Number)} (h : answer P c w (.saveLog log) = some (r, w')) :
    (∃ e, r = .error e ∧ w' = w) ∨
      (c.rejects = none ∧ c.id ∉ w.logs.map AuditLogEntry.id ∧ r = .ok { log with id := c.id } ∧
        ∃ row, Row.write P c.id log = some row ∧ w' = { w with logs := w.logs ++ [row] }) := by
  unfold answer at h
  dsimp only at h
  split at h
  · cases h
    exact .inl ⟨_, rfl, rfl⟩
  · next row hrow =>
    split at h
    · cases h
      exact .inl ⟨_, rfl, rfl⟩
    · next hnew =>
      rcases attempt_cases h with ⟨e, -, rfl, rfl⟩ | ⟨hrejects, rfl, rfl⟩
      · exact .inl ⟨e, rfl, rfl⟩
      · exact .inr ⟨Option.map_eq_none_iff.mp hrejects, hnew, rfl, row, hrow, rfl⟩

end Stellara.AuditService
