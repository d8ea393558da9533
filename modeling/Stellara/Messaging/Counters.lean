import Stellara.Messaging.Steps

/-!
# Counters and indexes of the mailbox

`Consistent` relates the four indexes, the unread counts and the statistics to the stored
messages.  `deliver` and `markRead` keep it, so it holds in every reachable state
(`mailbox_consistent`), and a message that can be marked as read has been counted as
unread, so that neither `saturating_sub` of `markRead` ever saturates.
-/

namespace Stellara.Messaging

/-- The user in whose folder the message is listed. -/
def Folder.owner : Folder → Message → Address
  | .inbox, m => m.recipient
  | .sent, m => m.sender

/-- The stored message waits to be read by `user`. -/
def unreadFor (user : Address) (_ : Channel × Nat) (m : Message) : Bool :=
  decide (m.recipient = user) && !m.read

theorem unreadFor_iff {user : Address} {k : Channel × Nat} {m : Message} :
    unreadFor user k m = true ↔ user = m.recipient ∧ m.read = false := by
  unfold unreadFor
  rw [Bool.and_eq_true, decide_eq_true_eq, Bool.not_eq_true', eq_comm]

/-- The counters and indexes say what is stored. -/
structure Consistent (b : Mailbox) : Prop where
  /-- a message is stored under its own id, and ids have been assigned up to the last one -/
  ids : ∀ channel id m, getMessage b channel id = some m →
    m.id = id ∧ 0 < id ∧ id ≤ b.stats.lastMessageId
  /-- no id is used in both maps -/
  unique : ∀ id, getMessage b .plain id = none ∨ getMessage b .encrypted id = none
  total : b.stats.totalMessages = Store.count (fun _ _ => true) b.messages
  last : b.stats.totalMessages = b.stats.lastMessageId
  unread : ∀ user, unreadCount b user = Store.count (unreadFor user) b.messages
  unreadTotal : (b.stats.unreadMessages : Int) = Store.total (fun _ (n : Nat) => (n : Int)) b.unread
  listed : ∀ channel folder user id, id ∈ getUserMessageIds b channel folder user ↔
    ∃ m, getMessage b channel id = some m ∧ folder.owner m = user
  once : ∀ channel folder user, (getUserMessageIds b channel folder user).Nodup

theorem consistent_empty : Consistent {} where
  ids := by intro channel id m h; cases h
  unique := fun _ => .inl rfl
  total := rfl
  last := rfl
  unread := fun _ => rfl
  unreadTotal := rfl
  listed := by
    intro channel folder user id
    constructor
    · intro h; cases h
    · rintro ⟨m, h, -⟩; cases h
  once := fun _ _ _ => List.nodup_nil

section Mailbox

variable {env : Env} {b : Mailbox} {channel : Channel}

/-- The entry of a user is the user's count. -/
theorem old_unread (user : Address) :
    Store.old (fun _ (n : Nat) => (n : Int)) b.unread user = unreadCount b user := by
  unfold Store.old unreadCount
  cases b.unread.lookup user <;> rfl

/-! ## Sending -/

section Deliver

variable {sender recipient : Address} {payload : Payload}

/-- The message that `deliver` stores. -/
def delivered (env : Env) (b : Mailbox) (sender recipient : Address) (payload : Payload) : Message :=
  { id := b.stats.lastMessageId + 1, sender, recipient, payload, timestamp := env.timestamp,
    read := false, processed := true }

theorem getMessage_deliver (channel' : Channel) (id : Nat) :
    getMessage (deliver env b channel sender recipient payload).2 channel' id =
      if (channel', id) = (channel, b.stats.lastMessageId + 1) then
        some (delivered env b sender recipient payload)
      else getMessage b channel' id :=
  Store.lookup_insert_eq ..

theorem unreadCount_deliver (user : Address) :
    unreadCount (deliver env b channel sender recipient payload).2 user =
      unreadCount b user + if user = recipient then 1 else 0 := by
  unfold unreadCount deliver
  rw [Store.lookup_insert_eq]
  split
  · next h => subst h; rfl
  · rfl

theorem ids_pushMessageId {folder : Folder} {user : Address} {id : Nat} (channel' : Channel)
    (folder' : Folder) (user' : Address) :
    getUserMessageIds (pushMessageId b channel folder user id) channel' folder' user' =
      getUserMessageIds b channel' folder' user' ++
        if (channel', folder', user') = (channel, folder, user) then [id] else [] := by
  unfold pushMessageId getUserMessageIds
  rw [Store.lookup_insert_eq]
  split
  · next h =>
    simp only [Prod.mk.injEq] at h
    obtain ⟨rfl, rfl, rfl⟩ := h
    rfl
  · rw [List.append_nil]

/-- The new id goes to the end of the recipient's inbox and of the sender's sent folder. -/
theorem ids_deliver (channel' : Channel) (folder : Folder) (user : Address) :
    getUserMessageIds (deliver env b channel sender recipient payload).2 channel' folder user =
      getUserMessageIds b channel' folder user ++
        if channel' = channel ∧ folder.owner (delivered env b sender recipient payload) = user then
          [b.stats.lastMessageId + 1]
        else [] := by
  have h : getUserMessageIds (deliver env b channel sender recipient payload).2 channel' folder user =
      getUserMessageIds (pushMessageId (pushMessageId b channel .inbox recipient
        (b.stats.lastMessageId + 1)) channel .sent sender (b.stats.lastMessageId + 1))
        channel' folder user := rfl
  rw [h, ids_pushMessageId, ids_pushMessageId, List.append_assoc]
  congr 1
  cases folder with
  | inbox => simp [Folder.owner, delivered, eq_comm]
  | sent => simp [Folder.owner, delivered, eq_comm]

/-- **Delivering** a message keeps the books. -/
theorem Consistent.deliver (h : Consistent b) (channel : Channel) (sender recipient : Address)
    (payload : Payload) : Consistent (deliver env b channel sender recipient payload).2 := by
  -- the next id is not in use
  have hfresh : ∀ channel', getMessage b channel' (b.stats.lastMessageId + 1) = none := by
    intro channel'
    cases hm : getMessage b channel' (b.stats.lastMessageId + 1) with
    | none => rfl
    | some m =>
      have hle := (h.ids _ _ _ hm).2.2
      omega
  have hcount : ∀ p : Channel × Nat → Message → Bool,
      Store.count p (Messaging.deliver env b channel sender recipient payload).2.messages =
        Store.count p b.messages + if p (channel, b.stats.lastMessageId + 1)
          (delivered env b sender recipient payload) then 1 else 0 :=
    fun p => Store.count_insert_new p _ (hfresh channel)
  constructor
  · intro channel' id m hm
    rw [getMessage_deliver] at hm
    show m.id = id ∧ 0 < id ∧ id ≤ b.stats.lastMessageId + 1
    split at hm
    · next heq =>
      obtain ⟨-, rfl⟩ := Prod.mk.inj heq
      obtain rfl := Option.some.inj hm
      exact ⟨rfl, by omega, le_rfl⟩
    · obtain ⟨hid, hpos, hle⟩ := h.ids _ _ _ hm
      exact ⟨hid, hpos, by omega⟩
  · intro id
    rw [getMessage_deliver, getMessage_deliver]
    by_cases hid : id = b.stats.lastMessageId + 1
    · subst hid
      cases channel with
      | plain => exact .inr (by simpa using hfresh .encrypted)
      | encrypted => exact .inl (by simpa using hfresh .plain)
    · simpa [hid] using h.unique id
  · rw [hcount]
    exact congrArg (· + 1) h.total
  · exact congrArg (· + 1) h.last
  · intro user
    rw [unreadCount_deliver, hcount, h.unread]
    simp only [unreadFor_iff, delivered, and_true]
  · show ((b.stats.unreadMessages + 1 : Nat) : Int) =
      Store.total _ (b.unread.insert recipient (unreadCount b recipient + 1))
    rw [Store.total_insert, old_unread, ← h.unreadTotal]
    push_cast
    omega
  · intro channel' folder user id
    rw [ids_deliver, List.mem_append, h.listed]
    simp only [getMessage_deliver]
    by_cases hkey : channel' = channel ∧ id = b.stats.lastMessageId + 1
    · obtain ⟨rfl, rfl⟩ := hkey
      simp [hfresh]
    · have hkey' : (channel', id) ≠ (channel, b.stats.lastMessageId + 1) :=
        fun heq => hkey (Prod.mk.inj heq)
      simp only [if_neg hkey']
      constructor
      · rintro (hold | hnew)
        · exact hold
        · split at hnew
          · next hch => exact absurd ⟨hch.1, List.mem_singleton.mp hnew⟩ hkey
          · cases hnew
      · exact .inl
  · intro channel' folder user
    rw [ids_deliver]
    split
    · refine List.Nodup.append (h.once _ _ _) (List.nodup_singleton _) ?_
      intro id hid hid'
      obtain rfl := List.mem_singleton.mp hid'
      obtain ⟨m, hm, -⟩ := (h.listed _ _ _ _).mp hid
      rw [hfresh] at hm
      cases hm
    · rw [List.append_nil]
      exact h.once _ _ _

end Deliver

/-! ## Marking as read -/

section Mark

variable {messageId : Nat} {message : Message}

theorem getMessage_markRead (recipient : Address) (channel' : Channel) (id : Nat) :
    getMessage (markRead b channel recipient messageId message) channel' id =
      if (channel', id) = (channel, messageId) then some { message with read := true }
      else getMessage b channel' id :=
  Store.lookup_insert_eq ..

theorem unreadCount_markRead (recipient user : Address) :
    unreadCount (markRead b channel recipient messageId message) user =
      unreadCount b user - if user = recipient then 1 else 0 := by
  unfold unreadCount markRead
  rw [Store.lookup_insert_eq]
  split
  · next h => subst h; rfl
  · rfl

/-- **No saturation**: an unread message has been counted in both places. -/
theorem Consistent.counted (h : Consistent b) (hm : getMessage b channel messageId = some message)
    (hr : message.read = false) :
    0 < unreadCount b message.recipient ∧ 0 < b.stats.unreadMessages := by
  have huser : 0 < unreadCount b message.recipient := by
    rw [h.unread]
    exact Store.count_pos hm (unreadFor_iff.mpr ⟨rfl, hr⟩)
  refine ⟨huser, ?_⟩
  -- the user's count is an entry of the store and a part of the total
  unfold unreadCount at huser
  cases hu : b.unread.lookup message.recipient with
  | none => rw [hu] at huser; cases huser
  | some n =>
    rw [hu] at huser
    have hle := Store.le_total (f := fun _ (n : Nat) => (n : Int)) (fun _ n _ => Int.natCast_nonneg n)
      hu
    rw [← h.unreadTotal] at hle
    have hn : 0 < n := huser
    omega

theorem Consistent.markRead (h : Consistent b) (hm : getMessage b channel messageId = some message)
    (hr : message.read = false) :
    Consistent (markRead b channel message.recipient messageId message) := by
  obtain ⟨huser, htotal⟩ := h.counted hm hr
  have hcount : ∀ p : Channel × Nat → Message → Bool,
      Store.count p (Messaging.markRead b channel message.recipient messageId message).messages +
          (if p (channel, messageId) message then 1 else 0) =
        Store.count p b.messages +
          if p (channel, messageId) { message with read := true } then 1 else 0 :=
    fun p => Store.count_insert_over p _ hm
  -- what is stored under an id keeps everything but its mark
  have hkept : ∀ channel' id m', getMessage
      (Messaging.markRead b channel message.recipient messageId message) channel' id = some m' →
      ∃ m, getMessage b channel' id = some m ∧ m'.id = m.id ∧
        ∀ folder : Folder, folder.owner m' = folder.owner m := by
    intro channel' id m' hm'
    rw [getMessage_markRead] at hm'
    split at hm'
    · next heq =>
      obtain ⟨rfl, rfl⟩ := Prod.mk.inj heq
      obtain rfl := Option.some.inj hm'
      exact ⟨message, hm, rfl, fun folder => by cases folder <;> rfl⟩
    · exact ⟨m', hm', rfl, fun _ => rfl⟩
  constructor
  · intro channel' id m' hm'
    obtain ⟨m, hm, hid, -⟩ := hkept _ _ _ hm'
    rw [hid]
    exact h.ids _ _ _ hm
  · intro id
    rcases h.unique id with hnone | hnone
    · left
      rw [getMessage_markRead, if_neg, hnone]
      intro heq
      obtain ⟨rfl, rfl⟩ := Prod.mk.inj heq
      rw [hm] at hnone
      cases hnone
    · right
      rw [getMessage_markRead, if_neg, hnone]
      intro heq
      obtain ⟨rfl, rfl⟩ := Prod.mk.inj heq
      rw [hm] at hnone
      cases hnone
  · have hone := hcount fun _ _ => true
    exact h.total.trans (by simpa using hone.symm)
  · exact h.last
  · intro user
    have hone := hcount (unreadFor user)
    simp only [unreadFor_iff, hr, and_true, Bool.true_eq_false, and_false, if_false] at hone
    rw [unreadCount_markRead, h.unread]
    omega
  · show ((b.stats.unreadMessages - 1 : Nat) : Int) =
      Store.total _ (b.unread.insert message.recipient (unreadCount b message.recipient - 1))
    rw [Store.total_insert, old_unread, ← h.unreadTotal]
    omega
  · intro channel' folder user id
    show id ∈ getUserMessageIds b channel' folder user ↔ _
    rw [h.listed]
    constructor
    · rintro ⟨m, hm', rfl⟩
      rw [getMessage_markRead]
      split
      · next heq =>
        obtain ⟨rfl, rfl⟩ := Prod.mk.inj heq
        obtain rfl := Option.some.inj (hm'.symm.trans hm)
        exact ⟨_, rfl, by cases folder <;> rfl⟩
      · exact ⟨m, hm', rfl⟩
    · rintro ⟨m', hm', rfl⟩
      obtain ⟨m, hm, -, howner⟩ := hkept _ _ _ hm'
      exact ⟨m, hm, (howner folder).symm⟩
  · exact h.once

end Mark

end Mailbox

/-! ## Runs -/

theorem exec_consistent {env : Env} {call : Call} {s s' : State} {r : Reply} (hf : Fresh s)
    (hc : Consistent s.box) (h : exec env call s = .ok (r, s')) : Consistent s'.box := by
  rcases exec_cases hf h with
    ⟨channel, sender, recipient, payload, -, hsent⟩ | ⟨channel, _, messageId, message, -, -, hm,
      rfl, hr, rfl⟩ | hsame
  · rw [hsent.box]
    exact hc.deliver channel sender recipient payload
  · exact hc.markRead hm hr
  · rw [hsame.box]
    exact hc

theorem consistent_run {d : Deployment} {tr : Trace} {s : State} (h : Run (machine d) tr s) :
    Consistent s.box := by
  refine (h.invariant (I := fun s => Fresh s ∧ Consistent s.box) ?_ ?_).2
  · rintro s rfl
    exact ⟨fun _ => rfl, consistent_empty⟩
  · rintro env call r s s' - ⟨hf, hc⟩ hx
    exact ⟨exec_fresh hf hx, exec_consistent hf hc hx⟩

/-- **Counters and indexes.**  In every reachable state the counters and indexes say what is
stored, and no message was ever marked as read with a count at zero. -/
theorem mailbox_consistent {d : Deployment} {tr : Trace} {s : State} (h : Run (machine d) tr s) :
    Consistent s.box ∧ ∀ e ∈ tr, ∀ channel recipient messageId,
      e.call = markCall channel recipient messageId →
        0 < unreadCount e.before.box recipient ∧ 0 < e.before.box.stats.unreadMessages := by
  refine ⟨consistent_run h, ?_⟩
  intro e he channel recipient messageId hcall
  obtain ⟨tr', hr, -, hx⟩ := h.of_mem he
  change exec e.env e.call e.before = _ at hx
  rw [hcall, exec_markCall] at hx
  obtain ⟨-, message, hm, rfl, hread, -⟩ := mark_ok (Outcome.answer_eq_ok.mp hx).1
  exact (consistent_run hr).counted hm hread

/-- Account 5 writes to account 6 in the clear, account 7 does so encrypted, and account 6
reads the first message. -/
def exampleCalls : List (Env × Call) :=
  let env (n : Nat) (signer : Address) : Env :=
    { self := 0, overflowChecks := true, timestamp := 5 * n, sequence := n, signers := [signer] }
  [(env 1 1, .init 1 [2] 3 ⟨1000, 1000, 3600⟩), (env 2 5, .sendMessage 5 6 [104, 105]),
    (env 3 7, .sendEncryptedMessage 7 6 [1]), (env 4 6, .markAsRead 6 1)]

theorem mailbox_consistent_two_kinds : ∃ tr s, Run (machine ⟨0, true⟩) tr s ∧
    s.box.stats = ⟨2, 1, 2⟩ ∧ unreadCount s.box 6 = 1 ∧
    (Consistent s.box ∧ ∀ e ∈ tr, ∀ channel recipient messageId,
      e.call = markCall channel recipient messageId →
        0 < unreadCount e.before.box recipient ∧ 0 < e.before.box.stats.unreadMessages) := by
  have hinit : (machine ⟨0, true⟩).init {} := rfl
  obtain ⟨tr, s, hrun, hok⟩ := Machine.exists_run_of_replay hinit exampleCalls
    (fun _ s => s.box.stats = ⟨2, 1, 2⟩ ∧ unreadCount s.box 6 = 1) (by decide) (by decide)
    (by decide)
  obtain ⟨hstats, hunread⟩ := of_decide_eq_true hok
  exact ⟨tr, s, hrun, hstats, hunread, mailbox_consistent hrun⟩

end Stellara.Messaging
