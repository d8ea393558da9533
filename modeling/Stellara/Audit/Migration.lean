import Stellara.Audit.Interleaving
import Stellara.Lib.Table

/-!
# The migration of an old table

`AddAuditIntegrityChain` gives the rows of an old table their hashes and signatures.  It walks them as
the database orders them, by microseconds, and the service walks them by milliseconds.  Where both
orders are the same, the migrated table verifies, and so it does after any calls of the service from
then on (`migrated_verifies`).

The migration and the service have the same key, and their expressions for the texts that are hashed
and signed are the same; so the model has one function for both.
-/

namespace Stellara.AuditService

open Async (obeying)
open Outcome (bind_eq_ok pure_eq_ok)

variable {Number Numeral : Type} {P : Platform Number Numeral}

/-! ## The migration -/

/-- A row, and its microseconds that a `Date` drops. -/
structure StoredLog (Numeral : Type) where
  row : Row Numeral
  micros : Fin 1000

/-- `ORDER BY "timestamp" ASC, "id" ASC`.  An infinite timestamp makes the migration fail wherever
it comes. -/
def StoredLog.Before (a b : StoredLog Numeral) : Prop :=
  let s := a.row.timestamp.elim 0 Instant.ms
  let t := b.row.timestamp.elim 0 Instant.ms
  s < t ∨ s = t ∧ (a.micros < b.micros ∨ a.micros = b.micros ∧ a.row.id ≤ b.row.id)

instance : DecidableRel (StoredLog.Before : StoredLog Numeral → StoredLog Numeral → Prop) :=
  fun a b => by
    unfold StoredLog.Before
    infer_instance

def setIntegrity (previousHash hash signature : String) (row : Row Numeral) : Row Numeral :=
  { row with previousHash, hash, signature }

/-- `UPDATE "audit_logs" SET … WHERE "id" = $4` -/
def updateIntegrity (id : Nat) (previousHash hash signature : String) (table : List (Row Numeral)) :
    List (Row Numeral) :=
  updateWhere (fun row => row.id = id) (setIntegrity previousHash hash signature) table

/-- The loop of the migration, over what was selected. -/
def backfill (P : Platform Number Numeral) (previousHash : String) :
    List (Row Numeral) → List (Row Numeral) → Except Error (List (Row Numeral))
  | [], table => pure table
  | row :: rest, table => do
    let entry : AuditContent (JsValue Number) := { (Row.read P row).toAuditContent with previousHash }
    let hash ← computeHash P entry
    let signature ← computeSignature P { entry with hash }
    backfill P hash rest (updateIntegrity row.id previousHash hash signature table)

/-- The rows after the migration, in a table of logs that has no archive yet. -/
def up (P : Platform Number Numeral) (logs : List (StoredLog Numeral)) :
    Except Error (List (Row Numeral)) :=
  backfill P "" ((logs.insertionSort StoredLog.Before).map StoredLog.row) (logs.map StoredLog.row)

/-! ## What it leaves -/

/-- The row up to its hashes and its signature. -/
def SameLog (old new : Row Numeral) : Prop :=
  ∃ previousHash hash signature, new = setIntegrity previousHash hash signature old

theorem SameLog.refl (row : Row Numeral) : SameLog row row := ⟨_, _, _, rfl⟩

theorem SameLog.setIntegrity {old new : Row Numeral} (h : SameLog old new)
    (previousHash hash signature : String) :
    SameLog old (setIntegrity previousHash hash signature new) := by
  obtain ⟨_, _, _, rfl⟩ := h
  exact ⟨_, _, _, rfl⟩

theorem sameLogs_update {old table : List (Row Numeral)} (h : List.Forall₂ SameLog old table)
    (id : Nat) (previousHash hash signature : String) :
    List.Forall₂ SameLog old (updateIntegrity id previousHash hash signature table) := by
  unfold updateIntegrity updateWhere
  rw [List.forall₂_map_right_iff]
  refine h.imp fun a b hab => ?_
  split
  · exact hab.setIntegrity _ _ _
  · exact hab

theorem ids_update {table : List (Row Numeral)} {id : Nat} {previousHash hash signature : String} :
    (updateIntegrity id previousHash hash signature table).map AuditLogEntry.id =
      table.map AuditLogEntry.id :=
  map_updateWhere fun _ _ _ => rfl

/-- The rows that the loop still has to update are in the table as they were selected. -/
structure Pending (rows table : List (Row Numeral)) : Prop where
  unique : (table.map AuditLogEntry.id).Nodup
  distinct : (rows.map AuditLogEntry.id).Nodup
  mem : ∀ row ∈ rows, row ∈ table

theorem mem_update {table : List (Row Numeral)} {row : Row Numeral}
    {previousHash hash signature : String} (hunique : (table.map AuditLogEntry.id).Nodup)
    (hrow : row ∈ table) (x : Row Numeral) :
    x ∈ updateIntegrity row.id previousHash hash signature table ↔
      x = setIntegrity previousHash hash signature row ∨ x ∈ table ∧ x.id ≠ row.id := by
  unfold updateIntegrity updateWhere
  rw [List.mem_map]
  constructor
  · rintro ⟨y, hy, rfl⟩
    split
    · next hid =>
      rw [List.inj_on_of_nodup_map hunique hy hrow (of_decide_eq_true hid)]
      exact .inl rfl
    · next hid => exact .inr ⟨hy, by simpa using hid⟩
  · rintro (rfl | ⟨hx, hne⟩)
    · exact ⟨row, hrow, if_pos (by simp)⟩
    · exact ⟨x, hx, if_neg (by simpa using hne)⟩

theorem Pending.update {row : Row Numeral} {rest table : List (Row Numeral)}
    (h : Pending (row :: rest) table) (previousHash hash signature : String) :
    Pending rest (updateIntegrity row.id previousHash hash signature table) := by
  have hdistinct := List.nodup_cons.mp h.distinct
  refine ⟨by rw [ids_update]; exact h.unique, hdistinct.2, fun x hx => ?_⟩
  refine (mem_update h.unique (h.mem row List.mem_cons_self) x).mpr
    (.inr ⟨h.mem x (List.mem_cons_of_mem _ hx), fun hid => ?_⟩)
  exact hdistinct.1 (hid ▸ List.mem_map_of_mem hx)

/-- The rows that were selected, each with what the loop sets, are a chain. -/
structure Backfilled (P : Platform Number Numeral) (previousHash : String)
    (rows new : List (Row Numeral)) : Prop where
  same : List.Forall₂ SameLog rows new
  verifies : Verifies P previousHash (new.map fun row => (Row.read P row).signed)
  valid : ∀ row ∈ rows, row.timestamp ≠ none

theorem Backfilled.cons {row : Row Numeral} {rest new : List (Row Numeral)}
    {previousHash hash signature : String} (h : Backfilled P hash rest new)
    (hhash : computeHash P { (Row.read P row).toAuditContent with previousHash } = .ok hash)
    (hsignature : computeSignature P
      { (Row.read P row).toAuditContent with previousHash, hash } = .ok signature) :
    Backfilled P previousHash (row :: rest) (setIntegrity previousHash hash signature row :: new) where
  same := .cons ⟨_, _, _, rfl⟩ h.same
  verifies :=
    ⟨⟨rfl, h.verifies.linked⟩, List.forall_mem_cons.mpr
      ⟨⟨computeHash_eq_ok.mp hhash, computeSignature_eq_ok.mp hsignature⟩, h.verifies.sealed⟩⟩
  valid := by
    refine List.forall_mem_cons.mpr ⟨?_, h.valid⟩
    obtain ⟨text, htext, -⟩ := computeHash_eq_ok.mp hhash
    obtain ⟨t, ht, -⟩ := hashedText_eq_ok.mp htext
    have ht : row.timestamp = some t := ht
    show row.timestamp ≠ none
    rw [ht]
    exact nofun

/-- **The loop**: the table has the new rows for those that were selected, and no other has changed. -/
theorem backfill_spec {previousHash : String} {rows table migrated : List (Row Numeral)}
    (h : backfill P previousHash rows table = .ok migrated) (hpending : Pending rows table) :
    (∀ old, List.Forall₂ SameLog old table → List.Forall₂ SameLog old migrated) ∧
      ∃ new, Backfilled P previousHash rows new ∧
        ∀ x, x ∈ migrated ↔ x ∈ new ∨ x ∈ table ∧ x.id ∉ rows.map AuditLogEntry.id := by
  induction rows generalizing previousHash table with
  | nil =>
    cases h
    refine ⟨fun _ hold => hold, [], ⟨.nil, ⟨trivial, List.forall_mem_nil _⟩,
      List.forall_mem_nil _⟩, fun x => ?_⟩
    simp
  | cons row rest ih =>
    simp only [backfill, bind_eq_ok] at h
    obtain ⟨hash, hhash, signature, hsignature, h⟩ := h
    obtain ⟨hsame, new, hnew, hmem⟩ := ih h (hpending.update _ _ _)
    have hrow := hpending.mem row List.mem_cons_self
    refine ⟨fun old hold => hsame old (sameLogs_update hold _ _ _ _), _,
      hnew.cons hhash hsignature, fun x => ?_⟩
    · have hfresh : row.id ∉ rest.map AuditLogEntry.id := (List.nodup_cons.mp hpending.distinct).1
      rw [hmem, mem_update hpending.unique hrow, List.mem_cons, List.map_cons, List.mem_cons]
      constructor
      · rintro (hx | ⟨rfl | ⟨hx, hne⟩, hid⟩)
        · exact .inl (.inr hx)
        · exact .inl (.inl rfl)
        · exact .inr ⟨hx, not_or.mpr ⟨hne, hid⟩⟩
      · rintro ((rfl | hx) | ⟨hx, hid⟩)
        · exact .inr ⟨.inl rfl, hfresh⟩
        · exact .inl hx
        · exact .inr ⟨.inr ⟨hx, fun h => hid (.inl h)⟩, fun h => hid (.inr h)⟩

/-! ## Both orders -/

/-- Within a millisecond, ids grow with the microseconds. -/
def SameOrder (logs : List (StoredLog Numeral)) : Prop :=
  ∀ a ∈ logs, ∀ b ∈ logs, a.row.timestamp = b.row.timestamp → a.micros < b.micros →
    a.row.id < b.row.id

theorem pairwise_select {logs : List (StoredLog Numeral)} (horder : SameOrder logs)
    (hunique : (logs.map fun log => log.row.id).Nodup)
    (hvalid : ∀ log ∈ logs, log.row.timestamp ≠ none) :
    ((logs.insertionSort StoredLog.Before).map StoredLog.row).Pairwise
      fun a b => sortKey a < sortKey b := by
  have : Std.Total (StoredLog.Before : StoredLog Numeral → StoredLog Numeral → Prop) :=
    ⟨fun a b => by unfold StoredLog.Before; dsimp only; omega⟩
  have : IsTrans (StoredLog Numeral) StoredLog.Before :=
    ⟨fun a b c hab hbc => by unfold StoredLog.Before at *; dsimp only at *; omega⟩
  have hperm := List.perm_insertionSort StoredLog.Before logs
  have hids : ((logs.insertionSort StoredLog.Before).map fun log => log.row.id).Nodup :=
    (hperm.map fun log => log.row.id).nodup_iff.mpr hunique
  have hne : (logs.insertionSort StoredLog.Before).Pairwise fun a b => a.row.id ≠ b.row.id :=
    List.pairwise_map.mp hids
  refine List.pairwise_map.mpr ?_
  refine ((List.pairwise_insertionSort StoredLog.Before logs).and hne).imp_of_mem ?_
  rintro a b ha hb ⟨hbefore, hid⟩
  have ha := hperm.mem_iff.mp ha
  have hb := hperm.mem_iff.mp hb
  obtain ⟨s, hs⟩ := Option.ne_none_iff_exists'.mp (hvalid a ha)
  obtain ⟨t, ht⟩ := Option.ne_none_iff_exists'.mp (hvalid b hb)
  have horder := horder a ha b hb
  unfold StoredLog.Before at hbefore
  rw [hs, ht] at hbefore horder
  unfold sortKey
  rw [Prod.Lex.toLex_lt_toLex, hs, ht]
  dsimp only [Option.elim_some] at hbefore ⊢
  have hinstant : s.ms = t.ms → a.micros < b.micros → a.row.id < b.row.id := by
    intro hms
    refine horder (congrArg some ?_)
    cases s; cases t; cases hms; rfl
  omega

theorem sortKey_setIntegrity {old new : Row Numeral} (h : SameLog old new) :
    sortKey (Row.read P new).signed = sortKey old := by
  obtain ⟨_, _, _, rfl⟩ := h
  rfl

theorem id_sameLog {old new : Row Numeral} (h : SameLog old new) : new.id = old.id := by
  obtain ⟨_, _, _, rfl⟩ := h
  rfl

theorem ids_sameLogs {old new : List (Row Numeral)} (h : List.Forall₂ SameLog old new) :
    new.map AuditLogEntry.id = old.map AuditLogEntry.id := by
  induction h with
  | nil => rfl
  | cons hx _ ih => rw [List.map_cons, List.map_cons, id_sameLog hx, ih]

theorem sortKeys_sameLogs {old new : List (Row Numeral)} (h : List.Forall₂ SameLog old new) :
    (new.map fun row => (Row.read P row).signed).map sortKey = old.map sortKey := by
  induction h with
  | nil => rfl
  | cons hx _ ih => rw [List.map_cons, List.map_cons, List.map_cons, sortKey_setIntegrity hx, ih]

/-- **The migrated table is in order.** -/
theorem books_of_up {logs : List (StoredLog Numeral)} {migrated : List (Row Numeral)}
    (h : up P logs = .ok migrated) (hunique : (logs.map fun log => log.row.id).Nodup)
    (horder : SameOrder logs) :
    List.Forall₂ SameLog (logs.map StoredLog.row) migrated ∧
      ∃ chain, Interleaving.Books P ⟨migrated, []⟩ [] chain := by
  have hperm := List.perm_insertionSort StoredLog.Before logs
  have hrows : ((logs.insertionSort StoredLog.Before).map StoredLog.row).Perm
    (logs.map StoredLog.row) := hperm.map _
  have hids : ((logs.map StoredLog.row).map AuditLogEntry.id).Nodup := by
    rw [List.map_map]
    exact hunique
  obtain ⟨hsame, new, hnew, hmem⟩ := backfill_spec h
    ⟨hids, (hrows.map _).nodup_iff.mpr hids, fun row hrow => hrows.mem_iff.mp hrow⟩
  have hsame := hsame _ (List.forall₂_same.mpr fun row _ => .refl row)
  refine ⟨hsame, new.map fun row => (Row.read P row).signed, ?_⟩
  have hvalid : ∀ log ∈ logs, log.row.timestamp ≠ none := by
    intro log hlog
    exact hnew.valid _ (hrows.mem_iff.mpr (List.mem_map_of_mem hlog))
  have hall : ∀ x, x ∈ migrated ↔ x ∈ new := by
    intro x
    rw [hmem]
    refine ⟨fun h => h.elim id fun ⟨hx, hid⟩ => absurd ?_ hid, .inl⟩
    exact List.mem_map_of_mem (hrows.mem_iff.mpr hx)
  refine
    { verifies := hnew.verifies
      sorted := ?_, unique := ?_, mem := ?_, logIds := ?_
      archiveIds := .nil
      archiving := fun _ h => nomatch h
      deleting := fun _ h => nomatch h
      both := fun _ _ h => nomatch h }
  · have hpairwise := List.pairwise_map.mpr (pairwise_select horder hunique hvalid)
    rw [← sortKeys_sameLogs (P := P) hnew.same] at hpairwise
    exact List.pairwise_map.mp hpairwise
  · have hnodup := (hrows.map AuditLogEntry.id).nodup_iff.mpr hids
    rw [← ids_sameLogs hnew.same] at hnodup
    rw [List.map_map]
    exact hnodup
  · intro x
    rw [List.mem_map, List.nil_append]
    constructor
    · rintro ⟨row, hrow, rfl⟩
      exact ⟨row, (hall row).mp hrow, rfl⟩
    · rintro ⟨row, hrow, rfl⟩
      exact ⟨row, (hall row).mpr hrow, rfl⟩
  · rw [ids_sameLogs hsame]
    exact hids

/-! ## The service from then on -/

/-- All interleavings of calls, from migrated rows. -/
def migrating (P : Platform Number Numeral) (migrated : List (Row Numeral)) :
    Machine Outside (Async.Move (Call Number)) Unit Unit (AuditSystem Number Numeral) :=
  Async.interleave (fun op => (op.program P).program) (fun _ => True) (answer P)
    (fun w => w = ⟨migrated, []⟩)

open Interleaving in
/-- **A migrated table verifies**, and still does after any calls of the service without mishap that
follow, in every state in which no call is between its writes; and the migration changes no row but
for its hashes and its signature. -/
theorem migrated_verifies (hstores : P.Stores) {logs : List (StoredLog Numeral)}
    {migrated : List (Row Numeral)} (hup : up P logs = .ok migrated)
    (hunique : (logs.map fun log => log.row.id).Nodup) (horder : SameOrder logs)
    {tr : List (AuditEvent Number Numeral)} {t : AuditSystem Number Numeral}
    (h : Run (migrating P migrated) tr t) (hclear : ∀ e ∈ tr, Async.Meets (Undisturbed P) e)
    (hwrites : ¬ BetweenWrites t) :
    List.Forall₂ SameLog (logs.map StoredLog.row) migrated ∧ ReportsValid P t.world := by
  obtain ⟨hsame, chain, hbooks⟩ := books_of_up hup hunique horder
  refine ⟨hsame, ?_⟩
  obtain ⟨gs, ⟨chain, hbooks⟩, hat⟩ := Async.interleave_obeys
    (J := fun _ w gs => ∃ chain, Books P w gs chain) (b := fun _ => .free)
    (fun op _ => program_obeys op) (by rintro w rfl; exact ⟨chain, hbooks⟩)
    (by rintro tr w gs op e - - ⟨chain, h⟩; exact ⟨chain, h.start⟩)
    (fun tr e gs i a r g hclear hans _ hg hasks h =>
      ⟨trivial, step hstores hclear hans hg hasks h⟩) h hclear
  -- a call that has still to delete awaits that
  refine hbooks.reportsValid fun ids hids => ?_
  obtain ⟨i, hi⟩ := List.mem_iff_getElem?.mp hids
  obtain ⟨p, hp, hobeys⟩ := Async.exists_of_getElem? hat.flip hi
  cases p with
  | done x => exact hobeys ids rfl
  | await a k =>
    have hasks : asks P (.deleting ids) a := hobeys.1
    cases a with
    | deleteLogs ids' => exact hwrites ⟨i, ids', by simp only [Async.System.awaited, hp]⟩
    | saveLog log => cases hasks.1
    | _ => cases hasks

/-- The rows of two entries, as they were without hashes. -/
def unsealed : List (StoredLog Empty) :=
  [⟨setIntegrity "" "" "" logoutRow, 250⟩, ⟨setIntegrity "" "" "" loginRow, 0⟩]

/-- The migration restores the hashes of the two entries, and then they are archived. -/
theorem migrated_archived :
    up recorded unsealed = .ok [logoutRow, loginRow] ∧
      ∃ (tr : List (AuditEvent Empty Empty)) (t : AuditSystem Empty Empty),
        Run (migrating recorded [logoutRow, loginRow]) tr t ∧ t.world.archives.length = 2 ∧
          ReportsValid recorded t.world := by
  have hup : up recorded unsealed = .ok [logoutRow, loginRow] := by rfl
  refine ⟨hup, ?_⟩
  obtain ⟨tr, t, hrun, hok⟩ := Machine.exists_run_of_replay
    (m := migrating recorded [logoutRow, loginRow]) (s := ⟨⟨[logoutRow, loginRow], []⟩, []⟩)
    ⟨rfl, rfl⟩
    ((⟨june, true, 0, none⟩, .start .archiveOldLogs) :: resumes ⟨june, true, 0, none⟩ 0 4)
    (fun tr t => decide ((∀ e ∈ tr, Async.Meets (Undisturbed recorded) e) ∧ t.Quiet ∧
      t.world.archives.length = 2))
    (fun c _ => valid_auditing (P := recorded) c) (List.pairwise_of_forall fun _ _ => Nat.le_refl 0)
    (by decide +kernel)
  obtain ⟨hclear, hquiet, harchives⟩ := of_decide_eq_true hok
  have horder : SameOrder unsealed := by unfold SameOrder; decide +kernel
  exact ⟨tr, t, hrun, harchives, (migrated_verifies (stores_noNumbers rfl rfl) hup (by decide) horder
    hrun hclear (not_betweenWrites hquiet)).2⟩

end Stellara.AuditService
