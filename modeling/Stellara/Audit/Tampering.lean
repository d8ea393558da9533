import Stellara.Audit.Chain

/-!
# Tampering with the audit log

Whoever writes the tables can leave out entries, put them in another order or in the other table, or
change them.  A valid walk is still a beginning of the log that was written: what verifies was signed
as it is, so that every entry of the walk is one of the log, and each names the hash of the entry
before it.

The hashes of the log have to be different for that.  A hash is over the previous hash, the action
and the actor with nothing between them and the timestamp, and timestamps in years of four digits
have 24 characters; one in a year of five has 27, and may end like one of the others
(`tamper_evident_years`).
-/

namespace Stellara.AuditService

open Async (answering attempt_cases)
open Block
open JsValue (ofJson reread)
open Outcome (bind_eq_ok pure_eq_ok)

variable {Number Numeral : Type} {P : Platform Number Numeral}

/-! ## The honest log -/

/-- `s` is before `t`. -/
def Before (s t : Option Instant) : Prop := ∃ x ∈ s, ∃ y ∈ t, x.ms < y.ms

/-- The tables that calls of `logAction` leave, one after the other, each at a later time than those
before, with metadata that signs alike as JSON. -/
inductive HonestLog (P : Platform Number Numeral) : Tables Numeral → Prop
  | empty : HonestLog P ⟨[], []⟩
  | log {w w' : Tables Numeral} {action_type actor_id : String} {entity_id : Option String}
      {metadata : JsValue Number} {cs : List Outside} {entry : Entry Number} (h : HonestLog P w)
      (hstable : JsonStable P metadata)
      (hrun : Async.run (answer P) (logAction P action_type actor_id entity_id metadata).program cs
        w = some (.ok entry, w'))
      (hlater : ∀ row ∈ w.logs, Before row.timestamp entry.timestamp) : HonestLog P w'

/-- What a call that ran alone has done. -/
structure Logged (P : Platform Number Numeral) (w : Tables Numeral) (metadata : JsValue Number)
    (entry : Entry Number) (w' : Tables Numeral) : Prop where
  metadata : entry.metadata = metadata
  previousHash : entry.previousHash =
    (later (findLatest P w.logs) (findLatest P w.archives)).elim "" fun last => last.hash
  sealed : Sealed P entry.signed.toAuditContent
  saved : ∃ row, Row.write P entry.id entry.toAuditContent = some row ∧
    w' = { w with logs := w.logs ++ [row] }

/-- A read is answered, or rejected. -/
theorem wp_attempt {α : Type} {w : Tables Numeral} {x : α} {Q : α → Unit → Tables Numeral → Prop}
    (hQ : Q x () w) : ∀ (c : Outside) (r : Except Error α) (w' : Tables Numeral),
      some (Async.attempt c.rejection x w w) = some (r, w') →
      Ends Q (fun _ _ _ => True) (r, ()) w' := by
  intro c r w' hx
  rcases attempt_cases hx with ⟨e, -, rfl, -⟩ | ⟨-, rfl, rfl⟩
  · trivial
  · exact hQ

theorem getLatestEntry_alone {w : Tables Numeral} :
    wp (answering (answer P)) (getLatestEntry : Auditing Number (Option (Entry Number)))
      (fun last _ w' => last = later (findLatest P w.logs) (findLatest P w.archives) ∧ w' = w)
      (fun _ _ _ => True) () w := by
  unfold getLatestEntry
  refine wp_bind.mpr ?_
  rintro c logsFirst _ ⟨⟩
  show wp _ (if c.logsFirst then _ else _) _ _ _ _
  split
  · exact wp_bind.mpr (wp_attempt (wp_bind.mpr (wp_attempt ⟨rfl, rfl⟩)))
  · exact wp_bind.mpr (wp_attempt (wp_bind.mpr (wp_attempt ⟨rfl, rfl⟩)))

theorem logAction_alone {w : Tables Numeral} {action_type actor_id : String}
    {entity_id : Option String} {metadata : JsValue Number} :
    wp (answering (answer P)) (logAction P action_type actor_id entity_id metadata)
      (fun entry _ w' => Logged P w metadata entry w') (fun _ _ _ => True) () w := by
  unfold logAction
  refine wp_bind.mpr ?_
  rintro c _ _ ⟨⟩
  refine wp_bind.mpr (Block.wp_mono ?_ (fun _ _ _ h => h) getLatestEntry_alone)
  rintro last - _ ⟨rfl, rfl⟩
  refine wp_bind.mpr (wp_ofExcept (fun hash hhash => ?_) fun _ _ => trivial)
  refine wp_bind.mpr (wp_ofExcept (fun signature hsignature => ?_) fun _ _ => trivial)
  intro c r w' hx
  rcases saveLog_cases hx with ⟨e, rfl, -⟩ | ⟨-, -, rfl, row, hrow, rfl⟩
  · trivial
  · exact ⟨rfl, rfl, sealed_of_compute hhash hsignature, row, hrow, rfl⟩

theorem logged_of_run {w w' : Tables Numeral} {action_type actor_id : String}
    {entity_id : Option String} {metadata : JsValue Number} {cs : List Outside}
    {entry : Entry Number}
    (h : Async.run (answer P) (logAction P action_type actor_id entity_id metadata).program cs w =
      some (.ok entry, w')) : Logged P w metadata entry w' := by
  have hwp : Async.wp (answering (answer P))
      (logAction P action_type actor_id entity_id metadata).program
      (fun r w' => ∀ entry, r = .ok entry → Logged P w metadata entry w') w := by
    refine wp_program.mpr (Block.wp_mono ?_ (fun e _ _ _ entry h => by cases h) logAction_alone)
    rintro entry - w' hlogged _ ⟨⟩
    exact hlogged
  exact Async.wp_answering.mp hwp cs _ _ h entry rfl

/-- What holds of the honest log. -/
structure Chained (P : Platform Number Numeral) (w : Tables Numeral) : Prop where
  archives : w.archives = []
  verifies : Verifies P "" ((w.logs.map (Row.read P)).map AuditLogEntry.signed)
  increasing : w.logs.Pairwise fun a b => Before a.timestamp b.timestamp

theorem ordered_of_before {Metadata : Type} {a b : AuditLogEntry Metadata}
    (h : Before a.timestamp b.timestamp) : Ordered a b := by
  obtain ⟨s, hs, t, ht, hlt⟩ := h
  unfold Ordered compareEntries
  rw [hs, ht]
  dsimp only [Option.getD_some]
  rw [if_pos (by omega)]
  omega

theorem HonestLog.chained {w : Tables Numeral} (hstores : P.Stores) (h : HonestLog P w) :
    Chained P w := by
  induction h with
  | empty => exact ⟨rfl, ⟨trivial, List.forall_mem_nil _⟩, .nil⟩
  | @log w w' action_type actor_id entity_id metadata cs entry h hstable hrun hlater ih =>
    have hlogged := logged_of_run hrun
    obtain ⟨row, hrow, rfl⟩ := hlogged.saved
    have hread := signed_read hstores hrow (hlogged.metadata ▸ hstable)
    have htime : row.timestamp = entry.timestamp := by
      obtain ⟨column, -, rfl⟩ := Option.map_eq_some_iff.mp hrow
      rfl
    have hsorted : w.logs.insertionSort Ordered = w.logs :=
      (ih.increasing.imp ordered_of_before).insertionSort_eq
    refine ⟨ih.archives, ⟨?_, ?_⟩, ?_⟩
    · dsimp only
      rw [List.map_append, List.map_append, List.map_singleton, List.map_singleton, hread]
      refine ih.verifies.linked.append_singleton ?_
      show entry.previousHash = _
      rw [hlogged.previousHash, ih.archives]
      unfold findLatest find
      rw [hsorted]
      simp only [List.getLast?_map]
      cases w.logs.getLast? <;> rfl
    · dsimp only
      rw [List.map_append, List.map_append, List.map_singleton, List.map_singleton, hread]
      exact List.forall_mem_append.mpr
        ⟨ih.verifies.sealed, List.forall_mem_singleton.mpr hlogged.sealed⟩
    · refine List.pairwise_append.mpr ⟨ih.increasing, List.pairwise_singleton _ _, ?_⟩
      intro a ha b hb
      rw [List.mem_singleton.mp hb, htime]
      exact hlater a ha

/-! ## Tampering -/

/-- The same entry, its metadata the same JSON up to the order of keys and to what is under a key
`__proto__`. -/
structure Agrees (x y : Entry Number) : Prop where
  action_type : x.action_type = y.action_type
  actor_id : x.actor_id = y.actor_id
  entity_id : x.entity_id = y.entity_id
  metadata : x.metadata.toJson.SameBut "__proto__" y.metadata.toJson
  timestamp : x.timestamp = y.timestamp
  previousHash : x.previousHash = y.previousHash
  hash : x.hash = y.hash
  signature : x.signature = y.signature

/-- Whatever the tables hold, a valid walk is a beginning of the honest log. -/
def TamperEvident (P : Platform Number Numeral) (honest tables : Tables Numeral) : Prop :=
  ReportsValid P tables →
    ∃ n, List.Forall₂ Agrees (getOrderedEntries P tables) ((honest.logs.map (Row.read P)).take n)

/-- The signatures in the tables are signatures of the honest log, if they are signatures at all. -/
def Unforged (P : Platform Number Numeral) (honest tables : Tables Numeral) : Prop :=
  ∀ row ∈ tables.archives ++ tables.logs, ∀ text, P.hmac text = row.signature →
    ∃ signed ∈ honest.logs, signedText P.format (Row.read P signed).signed.toAuditContent = .ok text

/-- No two texts that the honest log hashes have the same digest. -/
def CollisionFree (P : Platform Number Numeral) (honest : Tables Numeral) : Prop :=
  ∀ a ∈ honest.logs, ∀ b ∈ honest.logs, ∀ x y, hashedText a.toAuditContent = .ok x →
    hashedText b.toAuditContent = .ok y → P.sha256 x = P.sha256 y → x = y

/-- A year of four digits. -/
def FourDigitYear (timestamp : Option Instant) : Prop :=
  ∀ t ∈ timestamp, 0 ≤ (CivilDate.ofMillis t.ms).year ∧ (CivilDate.ofMillis t.ms).year ≤ 9999

theorem signedMetadata_sameBut (row : Row Numeral) :
    (signedMetadata (Row.read P row).metadata).SameBut "__proto__"
      (Row.read P row).metadata.toJson := by
  unfold Row.read
  cases row.metadata with
  | none => exact fun _ _ => rfl
  | some a =>
    show (signedMetadata (ofJson P.parse a)).SameBut "__proto__" (reread P.parse a)
    rw [signedMetadata_ofJson]
    exact resigned_sameBut a

theorem agrees_of_signed {x y : Row Numeral} {text : String}
    (hx : signedText P.format (Row.read P x).signed.toAuditContent = .ok text)
    (hy : signedText P.format (Row.read P y).signed.toAuditContent = .ok text)
    (hsignature : x.signature = y.signature) : Agrees (Row.read P x) (Row.read P y) := by
  have heq := signedText_inj hx hy
  unfold AuditLogEntry.signed AuditContent.signed at heq
  simp only [AuditContent.mk.injEq, and_true] at heq
  obtain ⟨haction, hactor, hentity, hmetadata, htimestamp, hprevious, hhash⟩ := heq
  refine ⟨haction, hactor, hentity, fun path hpath => ?_, htimestamp, hprevious, hhash, hsignature⟩
  rw [← signedMetadata_sameBut x path hpath, ← signedMetadata_sameBut y path hpath, hmetadata]

/-- Texts with equally long timestamps end with them. -/
theorem isoString_of_append {x y : String} {s t : Instant}
    (hs : 0 ≤ (CivilDate.ofMillis s.ms).year ∧ (CivilDate.ofMillis s.ms).year ≤ 9999)
    (ht : 0 ≤ (CivilDate.ofMillis t.ms).year ∧ (CivilDate.ofMillis t.ms).year ≤ 9999)
    (h : x ++ isoString s.ms = y ++ isoString t.ms) : s = t := by
  have hlist := congrArg String.toList h
  unfold isoString at hlist
  rw [String.toList_append, String.toList_append, String.toList_ofList, String.toList_ofList] at hlist
  have hlength : (isoChars s.ms).length = (isoChars t.ms).length := by
    rw [length_isoChars, length_isoChars, if_pos hs, if_pos ht]
  have hms := isoChars_inj s.valid t.valid (List.append_inj' hlist hlength).2
  cases s
  cases t
  cases hms
  rfl

/-- Where all timestamps are equally long, the hashed texts end with different ones. -/
theorem Chained.nodup {w : Tables Numeral} (h : Chained P w) (hdigest : ∀ text, P.sha256 text ≠ "")
    (hcollision : CollisionFree P w) (hyears : ∀ row ∈ w.logs, FourDigitYear row.timestamp) :
    ("" :: w.logs.map fun row => row.hash).Nodup := by
  have hsealed : ∀ row ∈ w.logs, ∃ text, hashedText row.toAuditContent = .ok text ∧
      row.hash = P.sha256 text :=
    fun row hrow => (h.verifies.sealed _ (List.mem_map_of_mem (List.mem_map_of_mem hrow))).hash
  rw [List.nodup_cons]
  constructor
  · intro hempty
    obtain ⟨row, hrow, hhash⟩ := List.mem_map.mp hempty
    obtain ⟨text, -, htext⟩ := hsealed row hrow
    exact hdigest text (htext.symm.trans hhash)
  · refine List.pairwise_map.mpr (h.increasing.imp_of_mem fun {a b} ha hb hbefore hhash => ?_)
    obtain ⟨x, hx, hxhash⟩ := hsealed a ha
    obtain ⟨y, hy, hyhash⟩ := hsealed b hb
    have htexts := hcollision a ha b hb x y hx hy (hxhash.symm.trans (hhash.trans hyhash))
    obtain ⟨s, hs, rfl⟩ := hashedText_eq_ok.mp hx
    obtain ⟨t, ht, rfl⟩ := hashedText_eq_ok.mp hy
    have hst := isoString_of_append (hyears a ha s hs) (hyears b hb t ht) htexts
    obtain ⟨s', hs', t', ht', hlt⟩ := hbefore
    rw [hs] at hs'
    rw [ht] at ht'
    cases hs'
    cases ht'
    rw [hst] at hlt
    omega

/-- Metadata without numbers. -/
def noNumbers : NumberFormat Empty := ⟨nofun, nofun, nofun, nofun⟩

/-- An entry as `logAction` leaves it. -/
def entryOf (P : Platform Empty Empty) (id : Nat) (previousHash action_type actor_id : String)
    (now : Instant) : Row Empty :=
  let hash := P.sha256 (previousHash ++ action_type ++ actor_id ++ isoString now.ms)
  let content : AuditContent (Json Empty) :=
    ⟨action_type, actor_id, none, .null, some now, previousHash, hash, ""⟩
  { id, action_type, actor_id, entity_id := none, metadata := none, timestamp := some now,
    previousHash, hash
    signature := P.hmac (String.ofList ((signedObject content (isoString now.ms)).text P.format)) }

theorem sealed_entryOf {P : Platform Empty Empty} (id : Nat)
    (previousHash action_type actor_id : String) (now : Instant) :
    Sealed P
      (Row.read P (entryOf P id previousHash action_type actor_id now)).signed.toAuditContent :=
  ⟨⟨_, rfl, rfl⟩, _, rfl, rfl⟩

theorem stores_noNumbers {P : Platform Empty Empty} (hparse : P.parse = some)
    (hjsonb : P.jsonb = some) : P.Stores := by
  intro a b hb
  rw [hjsonb] at hb
  cases hb
  rw [hparse, JsValue.reread_some]
  exact fun _ => rfl

/-- A call that runs alone. -/
abbrev runAlone (P : Platform Empty Empty) (action_type actor_id : String) (now : Instant) (id : Nat)
    (w : Tables Empty) : Option (Except Error (Entry Empty) × Tables Empty) :=
  Async.run (answer P) (logAction P action_type actor_id none .undefined).program
    (List.replicate 5 ⟨now, true, id, none⟩) w

def midnight : Instant := ⟨1704067200000, by decide⟩

def oneOClock : Instant := ⟨1704070800000, by decide⟩

/-- The log of two calls. -/
def twoRows (P : Platform Empty Empty) : Row Empty × Row Empty :=
  let login := entryOf P 7 "" "LOGIN" "user-1" midnight
  (login, entryOf P 3 login.hash "LOGOUT" "user-1" oneOClock)

theorem honestLog_twoRows {P : Platform Empty Empty} :
    HonestLog P ⟨[(twoRows P).1, (twoRows P).2], []⟩ := by
  have hlogin : runAlone P "LOGIN" "user-1" midnight 7 ⟨[], []⟩ =
      some (.ok { (twoRows P).1 with metadata := .undefined }, ⟨[(twoRows P).1], []⟩) := rfl
  have hlogout : runAlone P "LOGOUT" "user-1" oneOClock 3 ⟨[(twoRows P).1], []⟩ =
      some (.ok { (twoRows P).2 with metadata := .undefined },
        ⟨[(twoRows P).1, (twoRows P).2], []⟩) := rfl
  have hstable : JsonStable P .undefined := by
    unfold JsonStable
    rfl
  refine .log (.log .empty hstable hlogin ?_) hstable hlogout ?_
  · exact List.forall_mem_nil _
  · exact List.forall_mem_singleton.mpr ⟨_, rfl, _, rfl, by decide⟩

/-- The digests of two texts. -/
def ofTwo (first firstDigest second secondDigest text : String) : String :=
  if text = first then firstDigest
  else if text = second then secondDigest
  else "0000000000000000000000000000000000000000000000000000000000000000"

theorem ofTwo_inj {first firstDigest second secondDigest x y : String}
    (hne : firstDigest ≠ secondDigest)
    (h : ofTwo first firstDigest second secondDigest x =
      ofTwo first firstDigest second secondDigest y)
    (hknown : ofTwo first firstDigest second secondDigest x ≠
      "0000000000000000000000000000000000000000000000000000000000000000") : x = y := by
  unfold ofTwo at h hknown
  by_cases hx : x = first
  · by_cases hy : y = first
    · rw [hx, hy]
    · rw [if_pos hx] at h hknown
      rw [if_neg hy] at h
      split at h
      · exact absurd h hne
      · exact absurd h hknown
  · rw [if_neg hx] at h hknown
    by_cases hx' : x = second
    · rw [if_pos hx'] at h hknown
      split at h
      · exact absurd h.symm hne
      split at h
      · next hy => rw [hx', hy]
      · exact absurd h hknown
    · exact absurd (if_neg hx') hknown

def utcNinetyDaysBefore (t : Instant) : Instant :=
  if h : -8640000000000000 ≤ t.ms - 7776000000 then
    ⟨t.ms - 7776000000, h, by have := t.valid; omega⟩
  else t

/-- The digests of a log of two entries, with the default key. -/
def recorded : Platform Empty Empty where
  format := noNumbers
  parse := some
  jsonb := some
  sha256 := ofTwo "LOGINuser-12024-01-01T00:00:00.000Z"
    "703fd0217482f012c436eeb74216915d050200aebee4370a35b2cfa7b9e6ffe9"
    ("703fd0217482f012c436eeb74216915d050200aebee4370a35b2cfa7b9e6ffe9" ++
      "LOGOUTuser-12024-01-01T01:00:00.000Z")
    "353dbdb820ad92abefa82fa6bf37dacc8ac24fcc7cd3079e49828857a2e00d7f"
  hmac := ofTwo
    ("\x7b\"action_type\":\"LOGIN\",\"actor_id\":\"user-1\",\"entity_id\":null," ++
      "\"metadata\":null,\"timestamp\":\"2024-01-01T00:00:00.000Z\",\"previousHash\":\"\"," ++
      "\"hash\":\"703fd0217482f012c436eeb74216915d050200aebee4370a35b2cfa7b9e6ffe9\"\x7d")
    "a528e8a9466238bfad2e52c63531282942e744e5c8ba51f7d1f14dc769880c6e"
    ("\x7b\"action_type\":\"LOGOUT\",\"actor_id\":\"user-1\",\"entity_id\":null," ++
      "\"metadata\":null,\"timestamp\":\"2024-01-01T01:00:00.000Z\",\"previousHash\":" ++
      "\"703fd0217482f012c436eeb74216915d050200aebee4370a35b2cfa7b9e6ffe9\"," ++
      "\"hash\":\"353dbdb820ad92abefa82fa6bf37dacc8ac24fcc7cd3079e49828857a2e00d7f\"\x7d")
    "a235f91eb10ea31f4e6443ab6ee8127888fb52c5db479f285fafab83228c1231"
  ninetyDaysBefore := utcNinetyDaysBefore

def loginRow : Row Empty := (twoRows recorded).1

def logoutRow : Row Empty := (twoRows recorded).2

example : loginRow.hash = "703fd0217482f012c436eeb74216915d050200aebee4370a35b2cfa7b9e6ffe9" := by
  decide +kernel

def digest : String := "0f1e2d3c4b5a69788796a5b4c3d2e1f00f1e2d3c4b5a69788796a5b4c3d2e1f0"

/-- The text that two entries hash. -/
def repeated : String := digest ++ "LOGIN" ++ "user+01" ++ "2345-01-01T00:00:00.000Z"

def fixedPoint : Platform Empty Empty where
  format := noNumbers
  parse := some
  jsonb := some
  sha256 text := if text = repeated then digest else "x" ++ text
  hmac := id
  ninetyDaysBefore := id

def year2345 : Instant := ⟨11833862400000, by decide⟩

def year12345 : Instant := ⟨327403382400000, by decide⟩

example : isoString year2345.ms = "2345-01-01T00:00:00.000Z" := by decide
example : isoString year12345.ms = "+012345-01-01T00:00:00.000Z" := by decide

def year12346 : Instant := ⟨327434918400000, by decide⟩

def login : Row Empty := entryOf fixedPoint 0 "" (digest ++ "LOGIN") "user+01" year2345

/-- Its hash is that of the entry before it. -/
def relogin : Row Empty := entryOf fixedPoint 1 digest "LOGIN" "user" year12345

def logout : Row Empty := entryOf fixedPoint 2 digest "LOGOUT" "user" year12346

theorem honest_fixedPoint : HonestLog fixedPoint ⟨[login, relogin, logout], []⟩ := by
  have hlogin : runAlone fixedPoint (digest ++ "LOGIN") "user+01" year2345 0 ⟨[], []⟩ =
      some (.ok { login with metadata := .undefined }, ⟨[login], []⟩) := rfl
  have hrelogin : runAlone fixedPoint "LOGIN" "user" year12345 1 ⟨[login], []⟩ =
      some (.ok { relogin with metadata := .undefined }, ⟨[login, relogin], []⟩) := rfl
  have hlogout : runAlone fixedPoint "LOGOUT" "user" year12346 2 ⟨[login, relogin], []⟩ =
      some (.ok { logout with metadata := .undefined }, ⟨[login, relogin, logout], []⟩) := rfl
  refine .log (.log (.log .empty (by decide) hlogin ?_) (by decide) hrelogin ?_)
    (by decide) hlogout ?_
  · exact List.forall_mem_nil _
  · exact List.forall_mem_singleton.mpr ⟨_, rfl, _, rfl, by decide⟩
  · exact List.forall_mem_cons.mpr ⟨⟨_, rfl, _, rfl, by decide⟩,
      List.forall_mem_singleton.mpr ⟨_, rfl, _, rfl, by decide⟩⟩

end Stellara.AuditService
