import Stellara.Identity.Hub

/-!
# Who may read

    Run (machine toU64 d) tr s → (Throughout (Private toU64) tr ↔ Throughout (Timely toU64) tr)
                                                                              (private_iff)

`Private`: a read by someone other than the owner relies on a grant in force, one that was
neither revoked nor has expired.  It does so exactly if, at every read, one of the grants that
match it is in force, whenever some grant matches at all (`Timely`): no revocation is stored and
nothing compares the time with `expires_at` of a permission, so that a grant is good for ever.
What is enforced is the rest: a read is the owner's or matched by a grant (`read_matched`), and a
revocation changes no read (`revoke_reads`).

`accountOf hubId tr` is the hub as the calls tell it: its owner, and what was granted and
revoked.  `Told`: what is stored is that account, with the revocations left out.
-/

namespace Stellara.Identity

open Outcome

/-! ## Grants and revocations -/

/-- A permission as it was granted, and whether it was revoked. -/
structure Grant where
  id : Symbol
  granteeDid : Symbol
  dataEntryId : Symbol
  permissionType : PermissionType
  conditions : List Condition
  expiresAt : Option Nat
  revoked : Bool := false
deriving DecidableEq, Repr

/-- What a hub stands for. -/
structure Account where
  ownerDid : Symbol
  grants : List Grant
deriving DecidableEq, Repr

def Account.grant (account : Account) (grant : Grant) : Account :=
  { account with grants := account.grants ++ [grant] }

def Account.revoke (permissionId : Symbol) (account : Account) : Account :=
  { account with
    grants := account.grants.map fun grant =>
      if grant.id = permissionId then { grant with revoked := true } else grant }

/-- The account of a hub after a call with its reply.  An id can be given out again, after the
counter has started anew; then the hub is a new one. -/
def accountAfter (hubId : Symbol) (call : Call) (r : Reply) (account : Option Account) :
    Option Account :=
  match call, r with
  | .createHub ownerDid, .id id => if id = hubId then some ⟨ownerDid, []⟩ else account
  | .grantPermission hub granteeDid dataEntryId permissionType conditions expiresAt, .id id =>
    if hub = hubId then account.map fun account => account.grant
      { id, granteeDid, dataEntryId, permissionType, conditions, expiresAt }
    else account
  | .revokePermission hub permissionId, _ =>
    if hub = hubId then account.map (Account.revoke permissionId) else account
  | _, _ => account

/-- The hub as the calls made so far tell it. -/
def accountOf (hubId : Symbol) : Trace → Option Account
  | [] => none
  | e :: tr => accountAfter hubId e.call e.ret (accountOf hubId tr)

section Reading

variable (toU64 : Symbol → Option Nat)

/-- The grant lets the requester read the entry, as far as its conditions go. -/
def Grant.Matches (env : Env) (dataEntryId requesterDid : Symbol) (grant : Grant) : Prop :=
  grant.granteeDid = requesterDid ∧ grant.dataEntryId = dataEntryId ∧
    grant.permissionType = .read ∧ (checkConditions toU64 env grant.conditions).toOption = some true

instance (env : Env) (dataEntryId requesterDid : Symbol) (grant : Grant) :
    Decidable (grant.Matches toU64 env dataEntryId requesterDid) :=
  inferInstanceAs (Decidable (_ ∧ _ ∧ _ ∧ _))

/-- The grant was not revoked and has not expired. -/
def Grant.InForce (env : Env) (grant : Grant) : Prop :=
  grant.revoked = false ∧
    ∀ expiration, grant.expiresAt = some expiration → env.timestamp ≤ expiration

instance (env : Env) (grant : Grant) : Decidable (grant.InForce env) :=
  inferInstanceAs (Decidable (_ ∧ ∀ expiration, grant.expiresAt = some expiration → _))

/-- The account lets the requester read the entry now. -/
def Account.Allows (env : Env) (dataEntryId requesterDid : Symbol) (account : Account) : Prop :=
  account.ownerDid = requesterDid ∨
    ∃ grant ∈ account.grants, grant.Matches toU64 env dataEntryId requesterDid ∧ grant.InForce env

instance (env : Env) (dataEntryId requesterDid : Symbol) (account : Account) :
    Decidable (account.Allows toU64 env dataEntryId requesterDid) :=
  inferInstanceAs (Decidable (_ ∨ ∃ grant ∈ account.grants, _ ∧ _))

/-- **Privacy** of a call: a read was allowed by what the owner granted. -/
def Private (e : Event Env Call Reply State) (tr : Trace) : Prop :=
  match e.call with
  | .getDataEntry hubId dataEntryId requesterDid =>
    ∃ account ∈ accountOf hubId tr, account.Allows toU64 e.env dataEntryId requesterDid
  | _ => True

instance (e : Event Env Call Reply State) (tr : Trace) : Decidable (Private toU64 e tr) :=
  match e with
  | ⟨env, .getDataEntry hubId dataEntryId requesterDid, _, _, _⟩ =>
    inferInstanceAs (Decidable (∃ account ∈ accountOf hubId tr,
      account.Allows toU64 env dataEntryId requesterDid))
  | ⟨_, .initContract, _, _, _⟩ | ⟨_, .createHub .., _, _, _⟩ | ⟨_, .addDataEntry .., _, _, _⟩
  | ⟨_, .grantPermission .., _, _, _⟩ | ⟨_, .revokePermission .., _, _, _⟩ =>
    inferInstanceAs (Decidable True)

/-- All grants that the requester could read the entry by are revoked or expired, and there are
some. -/
def Account.Stale (env : Env) (dataEntryId requesterDid : Symbol) (account : Account) : Prop :=
  account.ownerDid ≠ requesterDid ∧
    (∃ grant ∈ account.grants, grant.Matches toU64 env dataEntryId requesterDid) ∧
    ∀ grant ∈ account.grants, grant.Matches toU64 env dataEntryId requesterDid →
      ¬ grant.InForce env

instance (env : Env) (dataEntryId requesterDid : Symbol) (account : Account) :
    Decidable (account.Stale toU64 env dataEntryId requesterDid) :=
  inferInstanceAs (Decidable (_ ∧ (∃ grant ∈ account.grants, _) ∧
    ∀ grant ∈ account.grants, _ → _))

/-- **The condition.**  Nobody reads who has stale grants only. -/
def Timely (e : Event Env Call Reply State) (tr : Trace) : Prop :=
  match e.call with
  | .getDataEntry hubId dataEntryId requesterDid =>
    ∀ account ∈ accountOf hubId tr, ¬ account.Stale toU64 e.env dataEntryId requesterDid
  | _ => True

instance (e : Event Env Call Reply State) (tr : Trace) : Decidable (Timely toU64 e tr) :=
  match e with
  | ⟨env, .getDataEntry hubId dataEntryId requesterDid, _, _, _⟩ =>
    inferInstanceAs (Decidable (∀ account ∈ accountOf hubId tr,
      ¬ account.Stale toU64 env dataEntryId requesterDid))
  | ⟨_, .initContract, _, _, _⟩ | ⟨_, .createHub .., _, _, _⟩ | ⟨_, .addDataEntry .., _, _, _⟩
  | ⟨_, .grantPermission .., _, _, _⟩ | ⟨_, .revokePermission .., _, _, _⟩ =>
    inferInstanceAs (Decidable True)

end Reading

/-! ## What is stored -/

def Permission.toGrant (perm : Permission) : Grant where
  id := perm.id
  granteeDid := perm.granteeDid
  dataEntryId := perm.dataEntryId
  permissionType := perm.permissionType
  conditions := perm.conditions
  expiresAt := perm.expiresAt
  revoked := !perm.active

/-- The account that a stored hub is. -/
def storedAccount (s : State) (hubId : Symbol) : Option Account :=
  (s.hubs.lookup hubId).map fun hub => ⟨hub.ownerDid, hub.permissions.map Permission.toGrant⟩

def Grant.unrevoked (grant : Grant) : Grant := { grant with revoked := false }

def Account.unrevoked (account : Account) : Account :=
  { account with grants := account.grants.map Grant.unrevoked }

/-- The hubs are what the calls tell, without the revocations. -/
def Told (tr : Trace) (s : State) : Prop :=
  ∀ hubId, storedAccount s hubId = (accountOf hubId tr).map Account.unrevoked

theorem Grant.unrevoked_of {grant : Grant} (h : grant.revoked = false) :
    grant.unrevoked = grant := by
  unfold Grant.unrevoked
  rw [← h]

theorem Account.unrevoked_grant (account : Account) {grant : Grant}
    (h : grant.revoked = false) :
    (account.grant grant).unrevoked = account.unrevoked.grant grant := by
  unfold Account.grant Account.unrevoked
  rw [List.map_append, List.map_singleton, grant.unrevoked_of h]

theorem Account.unrevoked_revoke (account : Account) (permissionId : Symbol) :
    (account.revoke permissionId).unrevoked = account.unrevoked := by
  unfold Account.revoke Account.unrevoked
  rw [List.map_map]
  congr 2
  funext grant
  show Grant.unrevoked (if grant.id = permissionId then _ else _) = _
  split <;> rfl

section Calls

variable {toU64 : Symbol → Option Nat} {env : Env} {s s' : State} {hub hub' : IdentityHub}
  {id hubId dataEntryId requesterDid ownerDid : Symbol}

theorem getHub_ok : unwrap (getHub s hubId) = .ok hub ↔ s.hubs.lookup hubId = some hub := by
  unfold unwrap getHub
  rw [mapError_eq_ok, ofOption_eq_ok]

theorem newId_eq_ok {x : Result (Symbol × State)} {r : Reply} :
    newId x = .ok (r, s') ↔ ∃ id, x = .ok (id, s') ∧ r = .id id :=
  answerWith_eq_ok

theorem storedAccount_insert (h : s'.hubs = s.hubs.insert hubId hub') (k : Symbol) :
    storedAccount s' k =
      if hubId = k then some ⟨hub'.ownerDid, hub'.permissions.map Permission.toGrant⟩
      else storedAccount s k := by
  unfold storedAccount
  rw [h, Store.lookup_insert_eq]
  by_cases hk : hubId = k
  · rw [if_pos hk, if_pos hk.symm]
    rfl
  · rw [if_neg hk, if_neg (Ne.symm hk)]

/-- A hub stored again with the same owner and permissions. -/
theorem storedAccount_rewrite (hhub : s.hubs.lookup hubId = some hub)
    (h : s'.hubs = s.hubs.insert hubId hub') (howner : hub'.ownerDid = hub.ownerDid)
    (hperms : hub'.permissions = hub.permissions) (k : Symbol) :
    storedAccount s' k = storedAccount s k := by
  rw [storedAccount_insert h]
  split
  · next heq =>
    subst heq
    unfold storedAccount
    rw [hhub, howner, hperms]
    rfl
  · rfl

theorem createHub_ok (h : createHub env s ownerDid = .ok (id, s')) (k : Symbol) :
    storedAccount s' k = if id = k then some ⟨ownerDid, []⟩ else storedAccount s k := by
  simp only [createHub, bind_eq_ok, require_eq_ok, exists_unit_and, pure_eq_ok] at h
  obtain ⟨-, -, hx⟩ := h
  cases hx
  rw [storedAccount_insert (by rfl)]
  rfl

theorem addDataEntry_ok {dataType : Symbol} {encryptedData hash : List (Fin 256)}
    {expiresAt : Option Nat} {metadata : List (Symbol × Symbol)}
    (h : addDataEntry env s hubId dataType encryptedData hash expiresAt metadata = .ok (id, s'))
    (k : Symbol) : storedAccount s' k = storedAccount s k := by
  simp only [addDataEntry, bind_eq_ok, getHub_ok, exists_unit_and, pure_eq_ok] at h
  obtain ⟨hub, hhub, -, hx⟩ := h
  cases hx
  exact storedAccount_rewrite hhub rfl (by rfl) (by rfl) k

theorem grantPermission_ok {granteeDid : Symbol} {permissionType : PermissionType}
    {conditions : List Condition} {expiresAt : Option Nat}
    (h : grantPermission env s hubId granteeDid dataEntryId permissionType conditions expiresAt =
      .ok (id, s')) (k : Symbol) :
    storedAccount s' k = if hubId = k then (storedAccount s k).map fun account =>
        account.grant { id, granteeDid, dataEntryId, permissionType, conditions, expiresAt }
      else storedAccount s k := by
  simp only [grantPermission, bind_eq_ok, getHub_ok, require_eq_ok, exists_unit_and,
    pure_eq_ok] at h
  obtain ⟨hub, hhub, -, -, hx⟩ := h
  cases hx
  rw [storedAccount_insert (by rfl)]
  split
  · next heq =>
    subst heq
    unfold storedAccount Account.grant
    rw [hhub, List.map_append]
    rfl
  · rfl

/-- A revocation changes no permission. -/
theorem revokePermission_ok {permissionId : Symbol}
    (h : revokePermission env s hubId permissionId = .ok s') (k : Symbol) :
    storedAccount s' k = storedAccount s k := by
  simp only [revokePermission, bind_eq_ok, getHub_ok, exists_unit_and, pure_eq_ok] at h
  obtain ⟨hub, hhub, -, rfl⟩ := h
  exact storedAccount_rewrite hhub rfl (by rfl) (by rfl) k

/-! ## Reading -/

theorem hasPermission_ok {permissions : List Permission}
    (h : hasPermission toU64 env dataEntryId requesterDid permissions = .ok true) :
    ∃ perm ∈ permissions, perm.Covers dataEntryId requesterDid ∧
      checkConditions toU64 env perm.conditions = .ok true := by
  induction permissions with
  | nil => cases h
  | cons perm rest ih =>
    unfold hasPermission at h
    split at h
    · next hcovers =>
      rw [bind_eq_ok] at h
      obtain ⟨holds, hconditions, h⟩ := h
      cases holds with
      | true => exact ⟨perm, List.mem_cons_self, hcovers, hconditions⟩
      | false =>
        obtain ⟨perm', hmem, hperm'⟩ := ih h
        exact ⟨perm', List.mem_cons_of_mem _ hmem, hperm'⟩
    · obtain ⟨perm', hmem, hperm'⟩ := ih h
      exact ⟨perm', List.mem_cons_of_mem _ hmem, hperm'⟩

/-- A read is the owner's, or matched by something stored. -/
theorem getDataEntry_ok {dataEntry : DataEntry}
    (h : getDataEntry toU64 env s hubId dataEntryId requesterDid = .ok dataEntry) :
    ∃ account, storedAccount s hubId = some account ∧ (account.ownerDid = requesterDid ∨
      ∃ grant ∈ account.grants, grant.Matches toU64 env dataEntryId requesterDid) := by
  simp only [getDataEntry, bind_eq_ok, getHub_ok, exists_unit_and, pure_eq_ok] at h
  obtain ⟨hub, hhub, -, -, -, haccess, -⟩ := h
  refine ⟨_, by unfold storedAccount; rw [hhub]; rfl, ?_⟩
  unfold checkAccess at haccess
  split at haccess
  · rw [bind_eq_ok] at haccess
    obtain ⟨allowed, hallowed, htrue⟩ := haccess
    rw [require_eq_ok.mp htrue] at hallowed
    obtain ⟨perm, hmem, ⟨-, hgrantee, hentry, hread⟩, hconditions⟩ := hasPermission_ok hallowed
    refine .inr ⟨perm.toGrant, List.mem_map_of_mem hmem, hgrantee, hentry, hread, ?_⟩
    show (checkConditions toU64 env perm.conditions).toOption = some true
    rw [hconditions]
    rfl
  · next howner => exact .inl (not_not.mp howner)

/-! ## One call -/

theorem told_start : Told [] {} := fun hubId => by
  unfold storedAccount
  rw [show ({} : State).hubs.lookup hubId = none from AList.lookup_empty hubId]
  rfl

/-- **Every call** keeps the hubs as told. -/
theorem told_exec {call : Call} {r : Reply} {tr : Trace} (h : Told tr s)
    (hx : exec toU64 env call s = .ok (r, s')) : Told (⟨env, call, r, s, s'⟩ :: tr) s' := by
  intro hubId
  show _ = (accountAfter hubId call r (accountOf hubId tr)).map Account.unrevoked
  cases call with
  | initContract =>
    cases hx
    exact h hubId
  | createHub ownerDid =>
    obtain ⟨id, hcall, rfl⟩ := newId_eq_ok.mp hx
    rw [createHub_ok hcall, h hubId]
    unfold accountAfter
    dsimp only
    split <;> rfl
  | addDataEntry hub dataType encryptedData hash expiresAt metadata =>
    obtain ⟨id, hcall, rfl⟩ := newId_eq_ok.mp hx
    rw [addDataEntry_ok hcall, h hubId]
    rfl
  | grantPermission hub granteeDid dataEntryId permissionType conditions expiresAt =>
    obtain ⟨id, hcall, rfl⟩ := newId_eq_ok.mp hx
    rw [grantPermission_ok hcall, h hubId]
    unfold accountAfter
    dsimp only
    split
    · rw [Option.map_map, Option.map_map]
      congr 1
      funext account
      exact (account.unrevoked_grant rfl).symm
    · rfl
  | revokePermission hub permissionId =>
    obtain ⟨hcall, rfl⟩ := answer_eq_ok.mp hx
    rw [revokePermission_ok hcall, h hubId]
    unfold accountAfter
    dsimp only
    split
    · rw [Option.map_map]
      congr 1
      funext account
      exact (account.unrevoked_revoke permissionId).symm
    · rfl
  | getDataEntry hub dataEntryId requesterDid =>
    simp only [exec, bind_eq_ok, pure_eq_ok, Prod.mk.injEq] at hx
    obtain ⟨-, -, -, rfl⟩ := hx
    exact h hubId

/-- A read found a hub, which the requester owns or has a matching grant in. -/
theorem Told.read {dataEntry : DataEntry} {tr : Trace} (h : Told tr s)
    (hx : getDataEntry toU64 env s hubId dataEntryId requesterDid = .ok dataEntry) :
    ∃ account, accountOf hubId tr = some account ∧ (account.ownerDid = requesterDid ∨
      ∃ grant ∈ account.grants, grant.Matches toU64 env dataEntryId requesterDid) := by
  obtain ⟨stored, hstored, hmatch⟩ := getDataEntry_ok hx
  rw [h hubId] at hstored
  obtain ⟨account, haccount, rfl⟩ := Option.map_eq_some_iff.mp hstored
  refine ⟨account, haccount, hmatch.imp id ?_⟩
  rintro ⟨grant, hmem, hgrant⟩
  obtain ⟨grant', hmem', rfl⟩ := List.mem_map.mp hmem
  exact ⟨grant', hmem', hgrant⟩

/-- Where someone may read at all, the account allows it exactly if it is not stale. -/
theorem Account.allows_iff {account : Account} (h : account.ownerDid = requesterDid ∨
      ∃ grant ∈ account.grants, grant.Matches toU64 env dataEntryId requesterDid) :
    account.Allows toU64 env dataEntryId requesterDid ↔
      ¬ account.Stale toU64 env dataEntryId requesterDid := by
  constructor
  · rintro (howner | ⟨grant, hmem, hmatches, hforce⟩) ⟨hother, -, hstale⟩
    · exact hother howner
    · exact hstale grant hmem hmatches hforce
  · intro hfresh
    by_cases howner : account.ownerDid = requesterDid
    · exact .inl howner
    · have hmatch := h.resolve_left howner
      by_contra hno
      exact hfresh ⟨howner, hmatch, fun grant hmem hmatches hforce =>
        hno (.inr ⟨grant, hmem, hmatches, hforce⟩)⟩

/-- **One call** is private exactly if it is timely. -/
theorem private_step {call : Call} {r : Reply} {tr : Trace} (h : Told tr s)
    (hx : exec toU64 env call s = .ok (r, s')) :
    Private toU64 ⟨env, call, r, s, s'⟩ tr ↔ Timely toU64 ⟨env, call, r, s, s'⟩ tr := by
  cases call with
  | getDataEntry hubId dataEntryId requesterDid =>
    simp only [exec, bind_eq_ok, pure_eq_ok] at hx
    obtain ⟨dataEntry, hread, -⟩ := hx
    obtain ⟨account, haccount, hmatch⟩ := h.read hread
    show (∃ account ∈ accountOf hubId tr, _) ↔ ∀ account ∈ accountOf hubId tr, _
    rw [haccount]
    constructor
    · rintro ⟨_, ⟨⟩, hallows⟩ _ ⟨⟩
      exact (Account.allows_iff hmatch).mp hallows
    · intro hfresh
      exact ⟨account, rfl, (Account.allows_iff hmatch).mpr (hfresh account rfl)⟩
  | _ => exact Iff.rfl

end Calls

/-! ## Every run -/

theorem told_run {toU64 : Symbol → Option Nat} {d : Deployment} {tr : Trace} {s : State}
    (h : Run (machine toU64 d) tr s) : Told tr s := by
  refine h.invariant_trace (I := Told) ?_ ?_
  · rintro s rfl
    exact told_start
  · intro tr env call r s s' _ _ htold hx
    exact told_exec htold hx

/-- What is enforced in every reachable state: a read is the owner's, or some grant matches it. -/
theorem read_matched {toU64 : Symbol → Option Nat} {d : Deployment} {tr : Trace} {s : State}
    {env : Env} {hubId dataEntryId requesterDid : Symbol} {dataEntry : DataEntry}
    (h : Run (machine toU64 d) tr s)
    (hx : getDataEntry toU64 env s hubId dataEntryId requesterDid = .ok dataEntry) :
    ∃ account, accountOf hubId tr = some account ∧ (account.ownerDid = requesterDid ∨
      ∃ grant ∈ account.grants, grant.Matches toU64 env dataEntryId requesterDid) :=
  (told_run h).read hx

/-- A revocation that succeeds changes no read, by anyone at any time. -/
theorem revoke_reads {toU64 : Symbol → Option Nat} {env : Env} {s s' : State}
    {hubId permissionId : Symbol} (h : revokePermission env s hubId permissionId = .ok s')
    (env' : Env) (hub dataEntryId requesterDid : Symbol) :
    getDataEntry toU64 env' s' hub dataEntryId requesterDid =
      getDataEntry toU64 env' s hub dataEntryId requesterDid := by
  simp only [revokePermission, bind_eq_ok, getHub_ok, exists_unit_and, pure_eq_ok] at h
  obtain ⟨stored, hstored, -, rfl⟩ := h
  unfold getDataEntry getHub
  rw [Store.lookup_insert_eq]
  split
  · next heq =>
    rw [heq, hstored]
    rfl
  · rfl

/-- **Privacy**: along every run, every read is allowed by what was granted if and only if
nobody reads who has stale grants only. -/
theorem private_iff {toU64 : Symbol → Option Nat} {d : Deployment} {tr : Trace} {s : State}
    (h : Run (machine toU64 d) tr s) :
    Throughout (Private toU64) tr ↔ Throughout (Timely toU64) tr := by
  refine h.throughout_iff (I := Told) ?_ ?_
  · rintro s rfl
    exact told_start
  · intro tr env call r s s' _ _ _ htold hx
    exact ⟨private_step htold hx, fun _ => told_exec htold hx⟩

/-- The number that a decimal numeral stands for. -/
def decimal (symbol : Symbol) : Option Nat :=
  if symbol = "" then none
  else symbol.toList.foldl (fun number digit => number.bind fun n =>
    if digit.isDigit then some (10 * n + (digit.toNat - 48)) else none) (some 0)

def callAt (t : Nat) (call : Call) : Env × Call := (⟨⟨0, true⟩, t, 0, [0]⟩, call)

/-- A hub with one entry, which "did-2" may read up to time 100. -/
def entryShared : List (Env × Call) :=
  [callAt 0 .initContract, callAt 1 (.createHub "did-1"),
    callAt 2 (.addDataEntry "hub-1" "profile" [1, 2] [3] none []),
    callAt 3 (.grantPermission "hub-1" "did-2" "data-1" .read
      [⟨"time_lmt", "100", "lte"⟩] (some 50))]

/-- The entry is still read after the revocation of the only grant, and after its expiry. -/
theorem stale_reads :
    (∃ (tr : Trace) (s : State), Run (machine decimal ⟨0, true⟩) tr s ∧
      (tr.take 2).map Event.call = [.getDataEntry "hub-1" "data-1" "did-2",
        .revokePermission "hub-1" "perm-1"] ∧ ¬ Throughout (Private decimal) tr) ∧
    ∃ (tr : Trace) (s : State), Run (machine decimal ⟨0, true⟩) tr s ∧
      (tr.head?.map fun e => (e.env.timestamp, e.call)) =
        some (51, .getDataEntry "hub-1" "data-1" "did-2") ∧
      ¬ Throughout (Private decimal) tr := by
  constructor
  · obtain ⟨tr, s, hrun, hok⟩ := Machine.exists_run_of_replay
      (m := machine decimal ⟨0, true⟩) rfl
      (entryShared ++ [callAt 4 (.revokePermission "hub-1" "perm-1"),
        callAt 5 (.getDataEntry "hub-1" "data-1" "did-2")])
      (fun tr _ => (tr.take 2).map Event.call = [.getDataEntry "hub-1" "data-1" "did-2",
        .revokePermission "hub-1" "perm-1"] ∧ ¬ Throughout (Private decimal) tr)
      (by decide) (by decide) (by decide)
    exact ⟨tr, s, hrun, of_decide_eq_true hok⟩
  · obtain ⟨tr, s, hrun, hok⟩ := Machine.exists_run_of_replay
      (m := machine decimal ⟨0, true⟩) rfl
      (entryShared ++ [callAt 51 (.getDataEntry "hub-1" "data-1" "did-2")])
      (fun tr _ => (tr.head?.map fun e => (e.env.timestamp, e.call)) =
        some (51, .getDataEntry "hub-1" "data-1" "did-2") ∧
        ¬ Throughout (Private decimal) tr)
      (by decide) (by decide) (by decide)
    exact ⟨tr, s, hrun, of_decide_eq_true hok⟩

/-- Up to its expiry the grant is good. -/
theorem timely_read :
    ∃ (tr : Trace) (s : State), Run (machine decimal ⟨0, true⟩) tr s ∧
      (tr.head?.map fun e => (e.env.timestamp, e.call)) =
        some (50, .getDataEntry "hub-1" "data-1" "did-2") ∧ Throughout (Private decimal) tr := by
  obtain ⟨tr, s, hrun, hok⟩ := Machine.exists_run_of_replay (m := machine decimal ⟨0, true⟩) rfl
    (entryShared ++ [callAt 50 (.getDataEntry "hub-1" "data-1" "did-2")])
    (fun tr _ => (tr.head?.map fun e => (e.env.timestamp, e.call)) =
      some (50, .getDataEntry "hub-1" "data-1" "did-2") ∧ Throughout (Timely decimal) tr)
    (by decide) (by decide) (by decide)
  obtain ⟨hlast, htimely⟩ := of_decide_eq_true hok
  exact ⟨tr, s, hrun, hlast, (private_iff hrun).mpr htimely⟩

end Stellara.Identity
