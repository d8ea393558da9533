import Stellara.Audit.Tampering
import Mathlib.Data.Prod.Lex

/-!
# Calls interleaved

Calls of `logAction` and `archiveOldLogs` in any order, each going on whenever a request of it is
answered.  An entry is hashed with the one that was the last when its call looked; a call that looked
at the same time hashes with it too, and a chain has no forks.  Nor does the walk have the order in
which entries were saved, unless each comes after the last.  Where both hold whenever an entry is
saved, the rows of the two tables are the chain at any time, save that a row is in both tables while
its deletion is awaited, and is walked twice then.

What stands in the way otherwise is metadata that is not stored as it was signed: a `Date`
(`chain_verifies_date`).
-/

namespace Stellara.AuditService

open Async (obeying Answered attempt_cases)
open Block
open JsValue (ofJson reread)

variable {Number Numeral Metadata : Type} {P : Platform Number Numeral}

/-! ## Calls without mishap -/

/-- An entry is saved while the one whose hash it has is the last, and comes after it; the id is new
and the metadata signs alike as JSON.  The logs that were archived are deleted. -/
def Undisturbed (P : Platform Number Numeral) (c : Outside) (w : Tables Numeral) :
    AuditRequest Number → Prop
  | .saveLog log =>
    c.rejects = none →
      JsonStable P log.metadata ∧ c.id ∉ (w.archives ++ w.logs).map AuditLogEntry.id ∧
      let last := (getOrderedEntries P w).getLast?
      log.previousHash = (last.map fun entry => entry.hash).getD "" ∧
        last.all fun entry => (compareEntries entry { log with id := c.id }).any (· < 0)
  | .deleteLogs _ => c.rejects = none
  | _ => True

instance (c : Outside) (w : Tables Numeral) :
    DecidablePred (Undisturbed P c w : AuditRequest Number → Prop) := fun a => by
  unfold Undisturbed
  split <;> infer_instance

/-! ## The order of the walk -/

/-- What entries are sorted by. -/
def sortKey (x : AuditLogEntry Metadata) : Int ×ₗ Nat :=
  toLex (x.timestamp.elim 0 Instant.ms, x.id)

theorem compareEntries_of_some {a b : AuditLogEntry Metadata} {s t : Instant}
    (hs : a.timestamp = some s) (ht : b.timestamp = some t) :
    compareEntries a b =
      some (if s.ms - t.ms ≠ 0 then s.ms - t.ms else localeCompare a.id b.id) := by
  unfold compareEntries
  rw [hs, ht]

theorem ordered_iff {a b : AuditLogEntry Metadata} (ha : a.timestamp ≠ none)
    (hb : b.timestamp ≠ none) : Ordered a b ↔ sortKey a ≤ sortKey b := by
  obtain ⟨s, hs⟩ := Option.ne_none_iff_exists'.mp ha
  obtain ⟨t, ht⟩ := Option.ne_none_iff_exists'.mp hb
  unfold Ordered sortKey
  rw [compareEntries_of_some hs ht, Prod.Lex.toLex_le_toLex, hs, ht]
  unfold localeCompare
  dsimp only [Option.getD_some, Option.elim_some]
  split
  · omega
  · split
    · omega
    · split <;> omega

theorem sortKey_lt {a b : AuditLogEntry Metadata}
    (h : (compareEntries a b).any (· < 0) = true) : sortKey a < sortKey b := by
  cases hs : a.timestamp with
  | none =>
    unfold compareEntries at h
    rw [hs] at h
    cases h
  | some s =>
    cases ht : b.timestamp with
    | none =>
      unfold compareEntries at h
      rw [hs, ht] at h
      cases h
    | some t =>
      rw [compareEntries_of_some hs ht, Option.any_some, decide_eq_true_eq] at h
      unfold sortKey
      rw [Prod.Lex.toLex_lt_toLex, hs, ht]
      unfold localeCompare at h
      dsimp only [Option.elim_some]
      split at h
      · omega
      · split at h
        · omega
        · split at h <;> omega

theorem pairwise_getOrderedEntries {tables : Tables Numeral}
    (h : ∀ row ∈ tables.archives ++ tables.logs, row.timestamp ≠ none) :
    (getOrderedEntries P tables).Pairwise fun a b => sortKey a ≤ sortKey b := by
  have hvalid : ∀ entry ∈ find P tables.archives ++ find P tables.logs, entry.timestamp ≠ none := by
    intro entry hentry
    obtain ⟨row, hrow, rfl⟩ := List.mem_map.mp (perm_finds.mem_iff.mp hentry)
    exact h row hrow
  refine List.pairwise_map.mp ?_
  unfold getOrderedEntries
  rw [List.map_insertionSort Ordered (· ≤ ·) sortKey _
    fun a ha b hb => ordered_iff (hvalid a ha) (hvalid b hb)]
  exact List.pairwise_insertionSort _ _

/-! ## Sorted lists -/

section Sorted

variable {α κ : Type} [LinearOrder κ] {key : α → κ} {xs ys : List α}

/-- A list sorted strictly has each key once. -/
theorem eq_of_key (hys : ys.Pairwise fun a b => key a < key b) {x y : α} (hx : x ∈ ys) (hy : y ∈ ys)
    (h : key x = key y) : x = y :=
  List.inj_on_of_nodup_map (List.pairwise_map.mpr (hys.imp ne_of_lt)) hx hy h

theorem le_last {front : List α} {x z : α}
    (h : (front ++ [x]).Pairwise fun a b => key a ≤ key b) (hz : z ∈ front ++ [x]) :
    key z ≤ key x := by
  rcases List.mem_append.mp hz with hz | hz
  · exact (List.pairwise_append.mp h).2.2 z hz x List.mem_cons_self
  · rw [List.mem_singleton.mp hz]

/-- A sorted list with the same elements ends alike. -/
theorem getLast?_of_sorted (hxs : xs.Pairwise fun a b => key a ≤ key b)
    (hys : ys.Pairwise fun a b => key a < key b) (h : ∀ x, x ∈ xs ↔ x ∈ ys) :
    xs.getLast? = ys.getLast? := by
  cases ys using List.reverseRecOn with
  | nil => rw [List.eq_nil_iff_forall_not_mem.mpr fun x hx => List.not_mem_nil ((h x).mp hx)]
  | append_singleton front y =>
    have hy : y ∈ front ++ [y] := List.mem_append_right _ List.mem_cons_self
    cases xs using List.reverseRecOn with
    | nil => cases (h y).mpr hy
    | append_singleton front' x =>
      have hx : x ∈ front' ++ [x] := List.mem_append_right _ List.mem_cons_self
      have hle := le_last (hys.imp le_of_lt) ((h x).mp hx)
      rw [List.getLast?_concat, List.getLast?_concat,
        eq_of_key hys ((h x).mp hx) hy (le_antisymm hle (le_last hxs ((h y).mpr hy)))]

/-- A sorted list with the same elements, each of them once. -/
theorem eq_of_sorted (hxs : xs.Pairwise fun a b => key a ≤ key b)
    (hys : ys.Pairwise fun a b => key a < key b) (hnodup : xs.Nodup) (h : ∀ x, x ∈ xs ↔ x ∈ ys) :
    xs = ys := by
  have hnodup' : ys.Nodup := hys.imp fun h heq => absurd (heq ▸ h) (lt_irrefl _)
  refine List.Perm.eq_of_pairwise (fun a b ha hb hab hba => ?_) hxs (hys.imp le_of_lt)
    ((List.perm_ext_iff_of_nodup hnodup hnodup').mpr h)
  exact eq_of_key hys ((h a).mp ha) hb (le_antisymm hab hba)

end Sorted

namespace Interleaving

/-! ## The way of a call -/

inductive Point (Number : Type)
  | free
  | archiving (entries : List (Entry Number))
  | deleting (ids : List Nat)

def asks (P : Platform Number Numeral) (g : Point Number) : AuditRequest Number → Prop
  | .saveLog log => g = .free ∧ Sealed P log.signed
  | .saveArchives archives => g = .archiving archives
  | .deleteLogs ids => g = .deleting ids
  | _ => g = .free

def next (g : Point Number) : (a : AuditRequest Number) → AuditAnswer a → Point Number
  | .findOldLogs _, .ok oldLogs => .archiving oldLogs
  | .saveArchives archives, .ok _ => .deleting (archives.map AuditLogEntry.id)
  | .saveArchives _, .error _ => .free
  | .deleteLogs _, _ => .free
  | _, _ => g

abbrev protocol (P : Platform Number Numeral) :
    Protocol (AuditRequest Number) AuditAnswer (Point Number) :=
  ⟨asks P, fun _ _ _ => True, next⟩

/-- Nothing is left to be deleted. -/
def End {α : Type} (_ : α) (g : Point Number) : Prop := ∀ ids, g ≠ .deleting ids

/-- A request that changes nothing. -/
theorem look_obeys {α : Type} {a : AuditRequest Number} {f : AuditAnswer a → Except Error α}
    {Q : α → Unit → Point Number → Prop} (hasks : asks P .free a)
    (hnext : ∀ r, next (.free : Point Number) a r = .free) (hQ : ∀ x, Q x () .free) :
    wp (obeying (protocol P)) (request a f) Q (fun _ => End) () .free := by
  refine ⟨hasks, fun r _ => ?_⟩
  dsimp only
  rw [hnext]
  cases f r with
  | error e => exact nofun
  | ok x => exact hQ x

theorem getLatestEntry_obeys :
    wp (obeying (protocol P)) getLatestEntry (fun _ _ g => g = .free) (fun _ => End) () .free := by
  unfold getLatestEntry
  refine wp_bind.mpr (look_obeys rfl (fun _ => rfl) fun logsFirst => ?_)
  split
  · exact wp_bind.mpr (look_obeys rfl (fun _ => rfl) fun _ =>
      wp_bind.mpr (look_obeys rfl (fun _ => rfl) fun _ => rfl))
  · exact wp_bind.mpr (look_obeys rfl (fun _ => rfl) fun _ =>
      wp_bind.mpr (look_obeys rfl (fun _ => rfl) fun _ => rfl))

theorem logAction_obeys {action_type actor_id : String} {entity_id : Option String}
    {metadata : JsValue Number} :
    wp (obeying (protocol P)) (logAction P action_type actor_id entity_id metadata)
      (fun _ => End) (fun _ => End) () .free := by
  unfold logAction
  refine wp_bind.mpr (look_obeys rfl (fun _ => rfl) fun timestamp => wp_bind.mpr ?_)
  refine Block.wp_mono ?_ (fun _ _ _ h => h) getLatestEntry_obeys
  rintro last - _ rfl
  refine wp_bind.mpr (wp_ofExcept (fun hash hhash => ?_) fun _ _ => nofun)
  refine wp_bind.mpr (wp_ofExcept (fun signature hsignature => ?_) fun _ _ => nofun)
  exact look_obeys ⟨rfl, sealed_of_compute hhash hsignature⟩ (fun _ => rfl) fun _ => nofun

theorem archiveOldLogs_obeys :
    wp (obeying (protocol P)) (archiveOldLogs P) (fun _ => End) (fun _ => End) () .free := by
  unfold archiveOldLogs
  refine wp_bind.mpr (look_obeys rfl (fun _ => rfl) fun now => wp_bind.mpr ⟨rfl, fun r _ => ?_⟩)
  cases r with
  | error e => exact nofun
  | ok oldLogs =>
    show wp _ _ _ _ _ (Point.archiving oldLogs)
    split
    · exact nofun
    · refine wp_bind.mpr ⟨rfl, fun r _ => ?_⟩
      cases r with
      | error e => exact nofun
      | ok =>
        refine wp_bind.mpr ⟨rfl, fun r _ => ?_⟩
        cases r with
        | error e => exact nofun
        | ok => exact nofun

theorem program_obeys (op : Call Number) :
    Async.wp (obeying (protocol P)) (op.program P).program End .free := by
  refine wp_program.mpr ?_
  cases op with
  | logAction action_type actor_id entity_id metadata =>
    exact wp_bind.mpr (Block.wp_mono (fun _ _ _ h => h) (fun _ _ _ h => h) logAction_obeys)
  | archiveOldLogs =>
    exact wp_bind.mpr (Block.wp_mono (fun _ _ _ h => h) (fun _ _ _ h => h) archiveOldLogs_obeys)

/-! ## All calls and the tables -/

/-- What the tables hold is the chain, and only what an archiving call has still to delete is in
both. -/
structure Books (P : Platform Number Numeral) (w : Tables Numeral) (gs : List (Point Number))
    (chain : List (AuditLogEntry (Json Number))) : Prop where
  verifies : Verifies P "" chain
  sorted : chain.Pairwise fun a b => sortKey a < sortKey b
  unique : (chain.map AuditLogEntry.id).Nodup
  mem : ∀ x, (∃ row ∈ w.archives ++ w.logs, (Row.read P row).signed = x) ↔ x ∈ chain
  logIds : (w.logs.map AuditLogEntry.id).Nodup
  archiveIds : (w.archives.map AuditLogEntry.id).Nodup
  archiving : ∀ entries, .archiving entries ∈ gs →
    (∀ entry ∈ entries, entry.signed ∈ chain ∧ JsonStable P entry.metadata) ∧
      (entries.map AuditLogEntry.id).Nodup
  deleting : ∀ ids, .deleting ids ∈ gs → ∀ id ∈ ids, id ∈ w.archives.map AuditLogEntry.id
  both : ∀ row ∈ w.logs, row.id ∈ w.archives.map AuditLogEntry.id →
    ∃ ids, .deleting ids ∈ gs ∧ row.id ∈ ids

namespace Books

variable {w : Tables Numeral} {gs : List (Point Number)}
  {chain : List (AuditLogEntry (Json Number))}

theorem timestamp_ne_none (h : Books P w gs chain) {x : AuditLogEntry (Json Number)}
    (hx : x ∈ chain) : x.timestamp ≠ none := by
  obtain ⟨text, htext, -⟩ := (h.verifies.sealed x hx).hash
  obtain ⟨t, ht, -⟩ := hashedText_eq_ok.mp htext
  have ht : x.timestamp = some t := ht
  rw [ht]
  exact nofun

theorem mem_of_row (h : Books P w gs chain) {row : Row Numeral}
    (hrow : row ∈ w.archives ++ w.logs) : (Row.read P row).signed ∈ chain :=
  (h.mem _).mp ⟨row, hrow, rfl⟩

/-- The walk, as it is signed. -/
theorem pairwise_walk (h : Books P w gs chain) :
    ((getOrderedEntries P w).map AuditLogEntry.signed).Pairwise fun a b => sortKey a ≤ sortKey b :=
  List.pairwise_map.mpr
    (pairwise_getOrderedEntries fun _ hrow => h.timestamp_ne_none (h.mem_of_row hrow))

theorem mem_walk (h : Books P w gs chain) (x : AuditLogEntry (Json Number)) :
    x ∈ (getOrderedEntries P w).map AuditLogEntry.signed ↔ x ∈ chain := by
  rw [← h.mem, List.mem_map]
  constructor
  · rintro ⟨entry, hentry, rfl⟩
    obtain ⟨row, hrow, rfl⟩ := mem_getOrderedEntries.mp hentry
    exact ⟨row, hrow, rfl⟩
  · rintro ⟨row, hrow, rfl⟩
    exact ⟨_, mem_getOrderedEntries.mpr ⟨row, hrow, rfl⟩, rfl⟩

theorem getLast?_walk (h : Books P w gs chain) :
    (getOrderedEntries P w).getLast?.map AuditLogEntry.signed = chain.getLast? := by
  rw [← List.getLast?_map]
  exact getLast?_of_sorted h.pairwise_walk h.sorted h.mem_walk

/-- Where nothing is left to be deleted, the walk is the chain. -/
theorem reportsValid (h : Books P w gs chain) (hends : ∀ ids, .deleting ids ∉ gs) :
    ReportsValid P w := by
  have hids : ((w.archives ++ w.logs).map AuditLogEntry.id).Nodup := by
    rw [List.map_append]
    refine List.nodup_append'.mpr ⟨h.archiveIds, h.logIds, ?_⟩
    intro id harchive hlog
    obtain ⟨row, hrow, rfl⟩ := List.mem_map.mp hlog
    obtain ⟨ids, hdeleting, -⟩ := h.both row hrow harchive
    exact hends ids hdeleting
  have hnodup : ((getOrderedEntries P w).map AuditLogEntry.signed).Nodup := by
    refine List.Nodup.of_map AuditLogEntry.id ?_
    have hwalk : (getOrderedEntries P w).Perm ((w.archives ++ w.logs).map (Row.read P)) :=
      perm_getOrderedEntries
    have hperm := hwalk.map AuditLogEntry.id
    rw [List.map_map] at hperm ⊢
    exact hperm.nodup_iff.mpr hids
  rw [verifyAuditChain_valid_iff, eq_of_sorted h.pairwise_walk h.sorted hnodup h.mem_walk]
  exact h.verifies

/-- The rows with an id are signed alike. -/
theorem signed_of_id (h : Books P w gs chain) {x y : AuditLogEntry (Json Number)} (hx : x ∈ chain)
    (hy : y ∈ chain) (hid : x.id = y.id) : x = y :=
  List.inj_on_of_nodup_map h.unique hx hy hid

/-- An entry was saved. -/
theorem save (h : Books P w gs chain) (hstores : P.Stores) {id : Nat}
    {log : AuditContent (JsValue Number)} {row : Row Numeral}
    (hrow : Row.write P id log = some row) (hsealed : Sealed P log.signed)
    (hstable : JsonStable P log.metadata)
    (hnew : id ∉ (w.archives ++ w.logs).map AuditLogEntry.id)
    (hprevious : log.previousHash =
      ((getOrderedEntries P w).getLast?.map fun entry => entry.hash).getD "")
    (hlater : ((getOrderedEntries P w).getLast?.all fun entry =>
      (compareEntries entry { log with id }).any (· < 0)) = true) :
    Books P { w with logs := w.logs ++ [row] } gs (chain ++ [{ log.signed with id }]) := by
  have hread := signed_read hstores hrow hstable
  have hid : row.id = id := congrArg AuditLogEntry.id hread
  have hlast := h.getLast?_walk
  rw [List.map_append, List.mem_append, not_or] at hnew
  refine ⟨⟨?_, ?_⟩, ?_, ?_, ?_, ?_, h.archiveIds, ?_, h.deleting, ?_⟩
  · refine h.verifies.linked.append_singleton ?_
    rw [← hlast, Option.map_map]
    exact hprevious
  · exact List.forall_mem_append.mpr ⟨h.verifies.sealed, List.forall_mem_singleton.mpr hsealed⟩
  · refine List.pairwise_append.mpr ⟨h.sorted, List.pairwise_singleton _ _, fun x hx y hy => ?_⟩
    obtain ⟨front, last, rfl⟩ :=
      (List.eq_nil_or_concat' chain).resolve_left (List.ne_nil_of_mem hx)
    rw [List.getLast?_concat, Option.map_eq_some_iff] at hlast
    obtain ⟨entry, hentry, rfl⟩ := hlast
    rw [hentry, Option.all_some] at hlater
    rw [List.mem_singleton.mp hy]
    exact lt_of_le_of_lt (le_last (h.sorted.imp le_of_lt) hx) (sortKey_lt hlater)
  · rw [List.map_append, List.map_singleton]
    refine List.nodup_append'.mpr ⟨h.unique, List.nodup_singleton _, ?_⟩
    intro k hk hk'
    obtain ⟨x, hx, rfl⟩ := List.mem_map.mp hk
    obtain ⟨row', hrow', rfl⟩ := (h.mem x).mpr hx
    have hk' : row'.id = id := List.mem_singleton.mp hk'
    rcases List.mem_append.mp hrow' with hrow' | hrow'
    · exact hnew.1 (hk' ▸ List.mem_map_of_mem hrow')
    · exact hnew.2 (hk' ▸ List.mem_map_of_mem hrow')
  · intro x
    rw [List.mem_append, List.mem_singleton, ← h.mem, ← hread, eq_comm (a := x)]
    simp only [← List.append_assoc, List.mem_append, List.mem_singleton, or_and_right, exists_or,
      exists_eq_left]
  · rw [List.map_append, List.map_singleton, hid]
    refine List.nodup_append'.mpr ⟨h.logIds, List.nodup_singleton _, ?_⟩
    exact fun k hk hk' => hnew.2 (List.mem_singleton.mp hk' ▸ hk)
  · intro entries hentries
    refine ⟨fun entry hentry => ?_, (h.archiving entries hentries).2⟩
    obtain ⟨hmem, hstable⟩ := (h.archiving entries hentries).1 entry hentry
    exact ⟨List.mem_append_left _ hmem, hstable⟩
  · intro row' hrow' harchive
    rcases List.mem_append.mp hrow' with hrow' | hrow'
    · exact h.both row' hrow' harchive
    · rw [List.mem_singleton.mp hrow', hid] at harchive
      exact absurd harchive hnew.1

theorem mem_ids_upsert {rows new : List (Row Numeral)} {id : Nat} :
    id ∈ (upsert rows new).map AuditLogEntry.id ↔
      id ∈ rows.map AuditLogEntry.id ∨ id ∈ new.map AuditLogEntry.id := by
  unfold upsert
  rw [List.map_append, List.mem_append]
  constructor
  · rintro (h | h)
    · obtain ⟨row, hrow, rfl⟩ := List.mem_map.mp h
      exact .inl (List.mem_map_of_mem (List.mem_of_mem_filter hrow))
    · exact .inr h
  · intro h
    by_cases hnew : id ∈ new.map AuditLogEntry.id
    · exact .inr hnew
    · obtain ⟨row, hrow, rfl⟩ := List.mem_map.mp (h.resolve_right hnew)
      exact .inl (List.mem_map_of_mem (List.mem_filter.mpr ⟨hrow, decide_eq_true hnew⟩))

variable {i : Nat} {g : Point Number}

/-- A call went on, and the tables are as they were. -/
theorem goOn (h : Books P w gs chain) {g' : Point Number} (hg : gs[i]? = some g)
    (hend : ∀ ids, g ≠ .deleting ids) (hend' : ∀ ids, g' ≠ .deleting ids)
    (harchiving : ∀ entries, g' = .archiving entries →
      (∀ entry ∈ entries, entry.signed ∈ chain ∧ JsonStable P entry.metadata) ∧
        (entries.map AuditLogEntry.id).Nodup) :
    Books P w (gs.set i g') chain := by
  refine ⟨h.verifies, h.sorted, h.unique, h.mem, h.logIds, h.archiveIds, ?_, ?_, ?_⟩
  · intro entries hentries
    rcases Async.of_mem_set hg hentries with heq | ⟨j, -, hj⟩
    · exact harchiving entries heq.symm
    · exact h.archiving entries (List.mem_of_getElem? hj)
  · intro ids hids
    rcases Async.of_mem_set hg hids with heq | ⟨j, -, hj⟩
    · exact absurd heq.symm (hend' ids)
    · exact h.deleting ids (List.mem_of_getElem? hj)
  · intro row hrow harchive
    obtain ⟨ids, hids, hid⟩ := h.both row hrow harchive
    rcases Async.exists_mem_set g' hg ⟨_, hids, rfl⟩ with ⟨_, hx, rfl⟩ | heq
    · exact ⟨ids, hx, hid⟩
    · exact absurd heq.symm (hend ids)

theorem ids_of_write {entries : List (Entry Number)} {rows : List (Row Numeral)}
    (hrows : List.Forall₂ (fun entry row => Row.write P entry.id entry.toAuditContent = some row)
      entries rows) : rows.map AuditLogEntry.id = entries.map AuditLogEntry.id := by
  induction hrows with
  | nil => rfl
  | @cons entry row entries rows hrow _ ih =>
    obtain ⟨column, -, rfl⟩ := Option.map_eq_some_iff.mp hrow
    rw [List.map_cons, List.map_cons, ih]

/-- The entries of a call were written to the archive. -/
theorem archive (h : Books P w gs chain) (hstores : P.Stores) {entries : List (Entry Number)}
    (hg : gs[i]? = some (.archiving entries)) {rows : List (Row Numeral)}
    (hrows : List.Forall₂ (fun entry row => Row.write P entry.id entry.toAuditContent = some row)
      entries rows) :
    Books P { w with archives := upsert w.archives rows }
      (gs.set i (.deleting (entries.map AuditLogEntry.id))) chain := by
  obtain ⟨hentries, hunique⟩ := h.archiving entries (List.mem_of_getElem? hg)
  have hids := ids_of_write hrows
  have hsigned : ∀ row ∈ rows, (Row.read P row).signed ∈ chain := by
    intro row hrow
    obtain ⟨k, hk⟩ := List.mem_iff_getElem?.mp hrow
    obtain ⟨entry, hentry, hwrite⟩ := Async.exists_of_getElem? hrows.flip hk
    obtain ⟨hmem, hstable⟩ := hentries entry (List.mem_of_getElem? hentry)
    rw [signed_read hstores hwrite hstable]
    exact hmem
  refine ⟨h.verifies, h.sorted, h.unique, ?_, h.logIds, ?_, ?_, ?_, ?_⟩
  · intro x
    constructor
    · rintro ⟨row, hrow, rfl⟩
      rcases List.mem_append.mp hrow with hrow | hrow
      · rcases List.mem_append.mp hrow with hrow | hrow
        · exact h.mem_of_row (List.mem_append_left _ (List.mem_of_mem_filter hrow))
        · exact hsigned row hrow
      · exact h.mem_of_row (List.mem_append_right _ hrow)
    · intro hx
      obtain ⟨row, hrow, rfl⟩ := (h.mem x).mpr hx
      rcases List.mem_append.mp hrow with harchive | hlog
      · by_cases hnew : row.id ∈ rows.map AuditLogEntry.id
        · -- the row was written again
          obtain ⟨row', hrow', hid⟩ := List.mem_map.mp hnew
          exact ⟨row', List.mem_append_left _ (List.mem_append_right _ hrow'),
            h.signed_of_id (hsigned row' hrow') hx hid⟩
        · exact ⟨row, List.mem_append_left _ (List.mem_append_left _
            (List.mem_filter.mpr ⟨harchive, decide_eq_true hnew⟩)), rfl⟩
      · exact ⟨row, List.mem_append_right _ hlog, rfl⟩
  · unfold upsert
    rw [List.map_append]
    refine List.nodup_append'.mpr
      ⟨(List.filter_sublist.map _).nodup h.archiveIds, hids ▸ hunique, ?_⟩
    intro id hold hnew
    obtain ⟨row, hrow, rfl⟩ := List.mem_map.mp hold
    exact of_decide_eq_true (List.mem_filter.mp hrow).2 hnew
  · intro entries' hentries'
    rcases Async.of_mem_set hg hentries' with heq | ⟨j, -, hj⟩
    · cases heq
    · exact h.archiving entries' (List.mem_of_getElem? hj)
  · intro ids hids' id hid
    rw [mem_ids_upsert]
    rcases Async.of_mem_set hg hids' with heq | ⟨j, -, hj⟩
    · cases heq
      exact .inr (hids ▸ hid)
    · exact .inl (h.deleting ids (List.mem_of_getElem? hj) id hid)
  · intro row hrow harchive
    rw [mem_ids_upsert] at harchive
    by_cases hnew : row.id ∈ rows.map AuditLogEntry.id
    · exact ⟨_, Async.mem_set _ hg, hids ▸ hnew⟩
    · obtain ⟨ids, hids', hid⟩ := h.both row hrow (harchive.resolve_right hnew)
      rcases Async.exists_mem_set _ hg ⟨_, hids', rfl⟩ with ⟨_, hx, rfl⟩ | heq
      · exact ⟨ids, hx, hid⟩
      · cases heq

/-- The logs of a call were deleted. -/
theorem delete (h : Books P w gs chain) {ids : List Nat} (hg : gs[i]? = some (.deleting ids)) :
    Books P { w with logs := w.logs.filter fun row => row.id ∉ ids } (gs.set i .free) chain := by
  have hsub : (w.logs.filter fun row => row.id ∉ ids).Sublist w.logs := List.filter_sublist
  refine ⟨h.verifies, h.sorted, h.unique, ?_, (hsub.map _).nodup h.logIds, h.archiveIds, ?_, ?_, ?_⟩
  · intro x
    constructor
    · rintro ⟨row, hrow, rfl⟩
      exact h.mem_of_row ((List.mem_append.mp hrow).elim (List.mem_append_left _)
        fun hlog => List.mem_append_right _ (hsub.subset hlog))
    · intro hx
      obtain ⟨row, hrow, rfl⟩ := (h.mem x).mpr hx
      rcases List.mem_append.mp hrow with harchive | hlog
      · exact ⟨row, List.mem_append_left _ harchive, rfl⟩
      by_cases hid : row.id ∈ ids
      · -- what is deleted is in the archive
        obtain ⟨row', hrow', heq⟩ :=
          List.mem_map.mp (h.deleting ids (List.mem_of_getElem? hg) row.id hid)
        exact ⟨row', List.mem_append_left _ hrow',
          h.signed_of_id (h.mem_of_row (List.mem_append_left _ hrow')) hx heq⟩
      · exact ⟨row, List.mem_append_right _ (List.mem_filter.mpr ⟨hlog, decide_eq_true hid⟩), rfl⟩
  · intro entries hentries
    rcases Async.of_mem_set hg hentries with heq | ⟨j, -, hj⟩
    · cases heq
    · exact h.archiving entries (List.mem_of_getElem? hj)
  · intro ids' hids'
    rcases Async.of_mem_set hg hids' with heq | ⟨j, -, hj⟩
    · cases heq
    · exact h.deleting ids' (List.mem_of_getElem? hj)
  · intro row hrow harchive
    obtain ⟨hrow, hkept⟩ := List.mem_filter.mp hrow
    obtain ⟨ids', hids', hid⟩ := h.both row hrow harchive
    rcases Async.exists_mem_set .free hg ⟨_, hids', rfl⟩ with ⟨_, hx, rfl⟩ | heq
    · exact ⟨ids', hx, hid⟩
    · cases heq
      exact absurd hid (of_decide_eq_true hkept)

theorem start (h : Books P w gs chain) : Books P w (gs ++ [.free]) chain where
  verifies := h.verifies
  sorted := h.sorted
  unique := h.unique
  mem := h.mem
  logIds := h.logIds
  archiveIds := h.archiveIds
  archiving entries hentries := by
    rcases List.mem_append.mp hentries with hentries | hentries
    · exact h.archiving entries hentries
    · cases List.mem_singleton.mp hentries
  deleting ids hids := by
    rcases List.mem_append.mp hids with hids | hids
    · exact h.deleting ids hids
    · cases List.mem_singleton.mp hids
  both row hrow harchive := by
    obtain ⟨ids, hids, hid⟩ := h.both row hrow harchive
    exact ⟨ids, List.mem_append_left _ hids, hid⟩

theorem empty : Books P (⟨[], []⟩ : Tables Numeral) [] [] where
  verifies := ⟨trivial, List.forall_mem_nil _⟩
  sorted := .nil
  unique := .nil
  mem x := by
    constructor
    · rintro ⟨_, h, _⟩
      cases h
    · exact nofun
  logIds := .nil
  archiveIds := .nil
  archiving _ h := nomatch h
  deleting _ h := nomatch h
  both _ h := nomatch h

end Books

/-- One answer. -/
theorem step (hstores : P.Stores) {e : AuditEvent Number Numeral} {gs : List (Point Number)}
    {i : Nat} {a : AuditRequest Number} {r : AuditAnswer a} {g : Point Number}
    (hclear : Async.Meets (Undisturbed P) e) (hans : Answered (answer P) e i a r)
    (hg : gs[i]? = some g) (hasks : asks P g a)
    (h : ∃ chain, Books P e.before.world gs chain) :
    ∃ chain, Books P e.after.world (gs.set i (next g a r)) chain := by
  obtain ⟨chain, h⟩ := h
  have hx := hans.answer
  have hclear := hans.meets hclear
  have hlook : g = .free → next g a r = .free → e.after.world = e.before.world →
      ∃ chain, Books P e.after.world (gs.set i (next g a r)) chain := by
    rintro rfl hnext hworld
    rw [hnext, hworld]
    exact ⟨chain, h.goOn hg nofun nofun nofun⟩
  cases a with
  | now | logsFirst =>
    have hworld := congrArg Prod.snd (Option.some.inj hx)
    exact hlook hasks hasks hworld.symm
  | findLatestLog | findLatestArchive =>
    have hworld : e.after.world = e.before.world := by
      rcases attempt_cases hx with ⟨_, -, -, hworld⟩ | ⟨-, -, hworld⟩ <;> exact hworld
    exact hlook hasks hasks hworld
  | saveLog log =>
    obtain ⟨rfl, hsealed⟩ := hasks
    rcases saveLog_cases hx with ⟨error, -, hworld⟩ | ⟨hrejects, -, -, row, hrow, hworld⟩
    · exact hlook rfl rfl hworld
    · obtain ⟨hstable, hnew, hprevious, hlater⟩ := hclear hrejects
      rw [hworld]
      have hsaved := h.save hstores hrow hsealed hstable hnew hprevious hlater
      exact ⟨_, hsaved.goOn hg nofun nofun nofun⟩
  | findOldLogs cutoff =>
    obtain rfl : g = .free := hasks
    rcases attempt_cases hx with ⟨_, -, rfl, hworld⟩ | ⟨-, rfl, hworld⟩
    · exact hlook rfl rfl hworld
    · rw [hworld]
      refine ⟨chain, h.goOn hg nofun nofun ?_⟩
      rintro entries ⟨⟩
      have hperm := List.perm_insertionSort Ordered
        (e.before.world.logs.filter fun row => row.timestamp.any (·.ms < cutoff.ms))
      constructor
      · intro entry hentry
        obtain ⟨row, hrow, rfl⟩ := List.mem_map.mp hentry
        have hrow := List.mem_of_mem_filter (hperm.mem_iff.mp hrow)
        exact ⟨h.mem_of_row (List.mem_append_right _ hrow), jsonStable_read row⟩
      · unfold find
        rw [List.map_map]
        exact (hperm.map AuditLogEntry.id).nodup_iff.mpr
          ((List.filter_sublist.map _).nodup h.logIds)
  | saveArchives archives =>
    obtain rfl : g = .archiving archives := hasks
    rcases saveArchives_cases hx with ⟨_, rfl, hworld⟩ | ⟨rfl, rows, hrows, hworld⟩
    · rw [hworld]
      exact ⟨chain, h.goOn hg nofun nofun nofun⟩
    · rw [hworld]
      exact ⟨chain, h.archive hstores hg hrows⟩
  | deleteLogs ids =>
    obtain rfl : g = .deleting ids := hasks
    have hrejects : e.env.rejection = none := congrArg _ hclear
    rcases attempt_cases hx with ⟨_, hrejected, -⟩ | ⟨-, -, hworld⟩
    · rw [hrejects] at hrejected
      cases hrejected
    · rw [hworld]
      exact ⟨chain, h.delete hg⟩

/-- **The books of a run.** -/
theorem books_of_run (hstores : P.Stores) {tr : List (AuditEvent Number Numeral)}
    {t : AuditSystem Number Numeral} (h : Run (auditing P) tr t)
    (hclear : ∀ e ∈ tr, Async.Meets (Undisturbed P) e) :
    ∃ gs, (∃ chain, Books P t.world gs chain) ∧
      List.Forall₂ (Async.wp (obeying (protocol P)) · End) t.tasks gs := by
  refine Async.interleave_obeys (J := fun _ w gs => ∃ chain, Books P w gs chain)
    (b := fun _ => .free) (fun op _ => program_obeys op) ?_ ?_ ?_ h hclear
  · rintro w rfl
    exact ⟨[], .empty⟩
  · rintro tr w gs op e - - ⟨chain, h⟩
    exact ⟨chain, h.start⟩
  · intro tr e gs i a r g hclear hans _ hg hasks h
    exact ⟨trivial, step hstores hclear hans hg hasks h⟩

end Interleaving

/-- A call of `archiveOldLogs` has written to the archive and not deleted yet. -/
def BetweenWrites (t : AuditSystem Number Numeral) : Prop :=
  ∃ i ids, t.awaited i = some (.deleteLogs ids)

open Interleaving in
/-- **An honest chain verifies** in every state in which no call is between its writes. -/
theorem chain_verifies (hstores : P.Stores) {tr : List (AuditEvent Number Numeral)}
    {t : AuditSystem Number Numeral} (h : Run (auditing P) tr t)
    (hclear : ∀ e ∈ tr, Async.Meets (Undisturbed P) e) (hwrites : ¬ BetweenWrites t) :
    ReportsValid P t.world := by
  obtain ⟨gs, ⟨chain, hbooks⟩, hat⟩ := books_of_run hstores h hclear
  refine hbooks.reportsValid fun ids hids => ?_
  obtain ⟨i, hi⟩ := List.mem_iff_getElem?.mp hids
  obtain ⟨p, hp, hobeys⟩ := Async.exists_of_getElem? hat.flip hi
  cases p with
  | done x => exact hobeys ids rfl
  | await a k =>
    have hasks : asks P (.deleting ids) a := hobeys.1
    cases a with
    | deleteLogs ids' => exact hwrites ⟨i, ids', by simp only [Async.System.awaited, hp]⟩
    | saveLog log => cases hasks.1
    | _ => cases hasks

/-! ## Runs -/

/-- `n` answers to call `i`. -/
def resumes (c : Outside) (i n : Nat) : List (Outside × Async.Move (Call Empty)) :=
  List.replicate n (c, .resume i)

theorem valid_auditing {P : Platform Empty Empty} (c : Outside × Async.Move (Call Empty)) :
    (auditing P).valid c.1 c.2 := by
  obtain ⟨outside, move⟩ := c
  cases move <;> trivial

theorem not_betweenWrites {t : AuditSystem Number Numeral} (h : t.Quiet) : ¬ BetweenWrites t := by
  rintro ⟨i, ids, hi⟩
  unfold Async.System.awaited at hi
  split at hi
  · next a k ha =>
    obtain ⟨x, hx⟩ := h _ (List.mem_of_getElem? ha)
    cases hx
  · cases hi

def june : Instant := ⟨1717200000000, by decide⟩

/-- Two entries are written and then archived. -/
theorem chain_verifies_archived :
    ∃ (tr : List (AuditEvent Empty Empty)) (t : AuditSystem Empty Empty),
      Run (auditing recorded) tr t ∧ t.Quiet ∧ t.world.logs.length = 0 ∧
        t.world.archives.length = 2 ∧ ReportsValid recorded t.world := by
  obtain ⟨tr, t, hrun, hok⟩ := Machine.exists_run_of_replay (m := auditing recorded)
    (s := ⟨⟨[], []⟩, []⟩) ⟨rfl, rfl⟩
    ([Async.Move.start (.logAction "LOGIN" "user-1" none .undefined), .start .archiveOldLogs,
        .start (.logAction "LOGOUT" "user-1" none .undefined)].map
          (fun move => (⟨june, true, 0, none⟩, move)) ++
      resumes ⟨midnight, true, 7, none⟩ 0 5 ++ resumes ⟨oneOClock, false, 3, none⟩ 2 5 ++
      resumes ⟨june, true, 0, none⟩ 1 4)
    (fun tr t => decide ((∀ e ∈ tr, Async.Meets (Undisturbed recorded) e) ∧ t.Quiet ∧
      t.world.logs.length = 0 ∧ t.world.archives.length = 2))
    (fun c _ => valid_auditing c) (List.pairwise_of_forall fun _ _ => Nat.le_refl 0)
    (by decide +kernel)
  obtain ⟨hclear, hquiet, hlogs, harchives⟩ := of_decide_eq_true hok
  exact ⟨tr, t, hrun, hquiet, hlogs, harchives,
    chain_verifies (stores_noNumbers rfl rfl) hrun hclear (not_betweenWrites hquiet)⟩

/-- The digests of a new refresh token, with the default key. -/
def refreshed : Platform Empty Empty :=
  { recorded with
    sha256 := ofTwo "REFRESH_TOKEN_CREATEDuser-12024-01-01T00:00:00.000Z"
      "dc07abf61cb7e5738449b399296560f69bae73c8ae1b7c7675f8fbac07caefe8" ""
      "e3b0c44298fc1c149afbf4c8996fb92427ae41e4649b934ca495991b7852b855"
    hmac := ofTwo
      ("\x7b\"action_type\":\"REFRESH_TOKEN_CREATED\",\"actor_id\":\"user-1\"," ++
        "\"entity_id\":\"token-1\",\"metadata\":\x7b\"expiresAt\":\x7b\x7d\x7d," ++
        "\"timestamp\":\"2024-01-01T00:00:00.000Z\",\"previousHash\":\"\"," ++
        "\"hash\":\"dc07abf61cb7e5738449b399296560f69bae73c8ae1b7c7675f8fbac07caefe8\"\x7d")
      "2e1dffee1d77261569c29f083c23b27a0afc19835c5005adf6f810b137b725e5"
      ("\x7b\"action_type\":\"REFRESH_TOKEN_CREATED\",\"actor_id\":\"user-1\"," ++
        "\"entity_id\":\"token-1\"," ++
        "\"metadata\":\x7b\"expiresAt\":\"2024-01-08T00:00:00.000Z\"\x7d," ++
        "\"timestamp\":\"2024-01-01T00:00:00.000Z\",\"previousHash\":\"\"," ++
        "\"hash\":\"dc07abf61cb7e5738449b399296560f69bae73c8ae1b7c7675f8fbac07caefe8\"\x7d")
      "6ebf0f78eb31775a5cecb5cc6081afd9e457899fedd849b6e4244563ff3d5f58" }

def expiresAt : JsValue Empty := .object [("expiresAt", .date 1704672000000)]

example : ¬ JsonStable refreshed expiresAt := by decide

/-- A `Date` is signed as an object without keys and stored as a string. -/
theorem chain_verifies_date :
    ∃ (tr : List (AuditEvent Empty Empty)) (t : AuditSystem Empty Empty),
      Run (auditing refreshed) tr t ∧ t.Quiet ∧ refreshed.Stores ∧
        ¬ ReportsValid refreshed t.world := by
  let c : Outside := ⟨midnight, true, 0, none⟩
  obtain ⟨tr, t, hrun, hok⟩ := Machine.exists_run_of_replay (m := auditing refreshed)
    (s := ⟨⟨[], []⟩, []⟩) ⟨rfl, rfl⟩
    ((c, .start (.logAction "REFRESH_TOKEN_CREATED" "user-1" (some "token-1") expiresAt)) ::
      resumes c 0 5)
    (fun _ t => decide (t.Quiet ∧ ¬ ReportsValid refreshed t.world))
    (fun c _ => valid_auditing c) (List.pairwise_of_forall fun _ _ => Nat.le_refl 0)
    (by decide +kernel)
  obtain ⟨hquiet, hinvalid⟩ := of_decide_eq_true hok
  exact ⟨tr, t, hrun, hquiet, stores_noNumbers rfl rfl, hinvalid⟩

end Stellara.AuditService
