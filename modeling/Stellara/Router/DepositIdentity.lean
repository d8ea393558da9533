import Mathlib.Logic.Equiv.List
import Stellara.Lib.Encoding
import Stellara.Router.Withdrawal

/-!
# Deposit identity

The id of a deposit is the hash of its arguments and of the sequence number of the ledger:

    Run (machine sha256 toXdr d) tr s → ((depositIds tr).Nodup ↔ (deposits tr).Nodup)
                                                                        (deposit_identity_iff)

for a hash without collisions and a serialisation whose values delimit themselves.  All ledgers
have their own number, so two deposits can share an id only within one, and do if they have the
same arguments: the number is no nonce, and nothing is stored that a second deposit would meet.
-/

namespace Stellara.Bridge

open Outcome Router

variable {Digest : Type} {sha256 : Bytes → Digest} {toXdr : ScVal → Bytes} {d : Deployment}

/-- The arguments of a deposit and the ledger it is made in. -/
structure Deposit where
  sender : Address
  asset : Address
  amount : Int
  destChain : Nat
  recipient : Address
  sequence : Nat
deriving DecidableEq, Repr

/-- What is hashed. -/
def Deposit.data (toXdr : ScVal → Bytes) (p : Deposit) : Bytes :=
  toXdr (.address p.sender) ++ toXdr (.address p.asset) ++ toXdr (.i128 p.amount) ++
    toXdr (.u32 p.destChain) ++ toXdr (.address p.recipient) ++ toXdr (.u64 p.sequence)

/-- The deposit that the call has made. -/
def depositOf (e : Event Env Call (Reply Digest) State) : Option Deposit :=
  match e.call with
  | .deposit sender asset amount destChain recipient =>
    some ⟨sender, asset, amount, destChain, recipient, e.env.sequence⟩
  | _ => none

/-- The id that the call has returned for a deposit. -/
def depositIdOf (e : Event Env Call (Reply Digest) State) : Option Digest :=
  match e.call, e.ret with
  | .deposit .., .id depositId => some depositId
  | _, _ => none

/-- The accepted deposits of a run, newest first. -/
def deposits (tr : Trace Digest) : List Deposit := tr.filterMap depositOf

/-- Their ids. -/
def depositIds (tr : Trace Digest) : List Digest := tr.filterMap depositIdOf

/-! ## The id is the hash of the deposit -/

theorem data_injective (hxdr : SelfDelimiting toXdr) : Function.Injective (Deposit.data toXdr) := by
  rintro ⟨sender, asset, amount, destChain, recipient, sequence⟩
    ⟨sender', asset', amount', destChain', recipient', sequence'⟩ h
  simp only [Deposit.data, List.append_assoc] at h
  obtain ⟨hsender, h⟩ := hxdr _ _ _ _ h
  obtain ⟨hasset, h⟩ := hxdr _ _ _ _ h
  obtain ⟨hamount, h⟩ := hxdr _ _ _ _ h
  obtain ⟨hchain, h⟩ := hxdr _ _ _ _ h
  obtain ⟨hrecipient, h⟩ := hxdr _ _ _ _ h
  have hsequence := hxdr.injective h
  cases hsender
  cases hasset
  cases hamount
  cases hchain
  cases hrecipient
  cases hsequence
  rfl

/-- A call that makes a deposit returns its id, and any other call returns none. -/
theorem depositIdOf_eq {env : Env} {call : Call} {r : Reply Digest} {s s' : State}
    (hx : exec sha256 toXdr env call s = .ok (r, s')) :
    depositIdOf ⟨env, call, r, s, s'⟩ =
      (depositOf ⟨env, call, r, s, s'⟩).map fun p => sha256 (p.data toXdr) := by
  cases call with
  | deposit sender asset amount destChain recipient =>
    obtain ⟨id, hcall, rfl⟩ := replyId_ok hx
    simp only [deposit, bind_eq_ok, require_eq_ok, requireAuth_eq_ok, exists_unit_and,
      pure_eq_ok] at hcall
    obtain ⟨-, _, -, -, _, -, heq⟩ := hcall
    obtain ⟨rfl, -⟩ := Prod.mk.inj heq
    rfl
  | _ => rfl

theorem depositIds_eq {tr : Trace Digest} {s : State} (h : Run (machine sha256 toXdr d) tr s) :
    depositIds tr = (deposits tr).map fun p => sha256 (p.data toXdr) := by
  induction h with
  | start _ => rfl
  | commit _ _ _ hx ih =>
    unfold depositIds deposits at ih ⊢
    rw [List.filterMap_cons, List.filterMap_cons, depositIdOf_eq hx, ih]
    cases depositOf _ <;> rfl

/-- **Deposit identity.**  In every run, no two of the accepted deposits have one id exactly if
no two of them have the same sender, asset, amount, destination and recipient in one ledger. -/
theorem deposit_identity_iff {tr : Trace Digest} {s : State} (hsha : Function.Injective sha256)
    (hxdr : SelfDelimiting toXdr) (h : Run (machine sha256 toXdr d) tr s) :
    (depositIds tr).Nodup ↔ (deposits tr).Nodup := by
  rw [depositIds_eq h]
  exact List.nodup_map_iff (hsha.comp (data_injective hxdr))

/-! ## Runs -/

theorem bigEndian_length (k n : Nat) : (bigEndian k n).length = k := by
  induction k with
  | zero => rfl
  | succ k ih => rw [bigEndian, List.length_cons, ih]

/-- `k` bytes hold the number modulo `256 ^ k`. -/
theorem bigEndian_mod {k m n : Nat} (h : bigEndian k m = bigEndian k n) :
    m % 256 ^ k = n % 256 ^ k := by
  induction k with
  | zero => rw [Nat.pow_zero, Nat.mod_one, Nat.mod_one]
  | succ k ih =>
    obtain ⟨hhead, htail⟩ := List.cons.inj h
    have hdigit : m / 256 ^ k % 256 = n / 256 ^ k % 256 := congrArg Fin.val hhead
    rw [Nat.pow_succ, Nat.mod_mul, Nat.mod_mul, ih htail, hdigit]

theorem bigEndian_inj {k m n : Nat} (hm : m < 256 ^ k) (hn : n < 256 ^ k)
    (h : bigEndian k m = bigEndian k n) : m = n := by
  have hmod := bigEndian_mod h
  rwa [Nat.mod_eq_of_lt hm, Nat.mod_eq_of_lt hn] at hmod

/-- A value of its type. -/
def ScVal.InRange : ScVal → Prop
  | .address a => a < 256 ^ 32
  | .i128 x => InI128 x
  | .u32 n => n < 256 ^ 4
  | .u64 n => n < 256 ^ 8

instance : DecidablePred ScVal.InRange := fun v => by
  cases v <;> unfold ScVal.InRange <;> infer_instance

/-- A number for each value. -/
def ScVal.code : ScVal → Nat
  | .address a => 4 * a
  | .i128 x => 4 * Encodable.encode x + 1
  | .u32 n => 4 * n + 2
  | .u64 n => 4 * n + 3

theorem code_injective : Function.Injective ScVal.code := by
  intro v w h
  cases v <;> cases w <;> simp only [ScVal.code] at h <;> first
    | exact congrArg ScVal.address (Nat.eq_of_mul_eq_mul_left (by decide) h)
    | exact congrArg _ (by omega)
    | exact congrArg _ (Encodable.encode_injective (by omega))
    | omega

/-- The XDR of the values that there are, and something else for all other numbers. -/
def totalXdr (v : ScVal) : Bytes :=
  if v.InRange then sampleXdr v else 255 :: (List.replicate v.code 1 ++ [0])

theorem asU128_inj {x y : Int} (hx : InI128 x) (hy : InI128 y) (h : asU128 x = asU128 y) :
    x = y := by
  rw [inI128_iff] at hx hy
  unfold i128Max at hx hy
  unfold asU128 at h
  omega

theorem asU128_lt (x : Int) : asU128 x < 256 ^ 16 := by
  unfold asU128
  omega

/-- The first four bytes name the type. -/
def ScVal.tag : ScVal → Nat
  | .u32 _ => 3
  | .u64 _ => 5
  | .i128 _ => 10
  | .address _ => 18

/-- The other bytes. -/
def ScVal.body : ScVal → Bytes
  | .u32 n => bigEndian 4 n
  | .u64 n => bigEndian 8 n
  | .i128 x => bigEndian 16 (asU128 x)
  | .address a => bigEndian 4 1 ++ bigEndian 32 a

theorem sampleXdr_eq (v : ScVal) : sampleXdr v = bigEndian 4 v.tag ++ v.body := by
  cases v <;> rfl

theorem tag_lt (v : ScVal) : v.tag < 256 := by
  cases v <;> simp [ScVal.tag]

theorem body_delimits {v w : ScVal} {b c : Bytes} (hv : v.InRange) (hw : w.InRange)
    (htag : v.tag = w.tag) (h : v.body ++ b = w.body ++ c) : v = w ∧ b = c := by
  cases v <;> cases w <;> try cases htag
  · rw [ScVal.body, ScVal.body, List.append_assoc, List.append_assoc] at h
    obtain ⟨ha, hbc⟩ := List.append_inj (List.append_cancel_left h)
      (by rw [bigEndian_length, bigEndian_length])
    exact ⟨congrArg _ (bigEndian_inj hv hw ha), hbc⟩
  · obtain ⟨hx, hbc⟩ := List.append_inj h (by rw [ScVal.body, ScVal.body, bigEndian_length,
      bigEndian_length])
    exact ⟨congrArg _ (asU128_inj hv hw (bigEndian_inj (asU128_lt _) (asU128_lt _) hx)), hbc⟩
  · obtain ⟨hn, hbc⟩ := List.append_inj h (by rw [ScVal.body, ScVal.body, bigEndian_length,
      bigEndian_length])
    exact ⟨congrArg _ (bigEndian_inj hv hw hn), hbc⟩
  · obtain ⟨hn, hbc⟩ := List.append_inj h (by rw [ScVal.body, ScVal.body, bigEndian_length,
      bigEndian_length])
    exact ⟨congrArg _ (bigEndian_inj hv hw hn), hbc⟩

/-- No value's XDR begins with 255. -/
theorem sampleXdr_head (v : ScVal) {b c : Bytes} : sampleXdr v ++ b ≠ 255 :: c := by
  intro h
  have hzero : v.tag / 256 ^ 3 = 0 := Nat.div_eq_of_lt ((tag_lt v).trans (by decide))
  rw [sampleXdr_eq, bigEndian, hzero] at h
  exact absurd (List.cons.inj h).1 (by decide)

theorem totalXdr_delimits : SelfDelimiting totalXdr := by
  intro v w b c h
  unfold totalXdr at h
  split at h
  · next hv =>
    split at h
    · next hw =>
      have hlt : ∀ v : ScVal, v.tag < 256 ^ 4 := fun v => (tag_lt v).trans (by decide)
      rw [sampleXdr_eq, sampleXdr_eq, List.append_assoc, List.append_assoc] at h
      obtain ⟨htag, hbody⟩ := List.append_inj h (by rw [bigEndian_length, bigEndian_length])
      exact body_delimits hv hw (bigEndian_inj (hlt v) (hlt w) htag) hbody
    · exact absurd h (sampleXdr_head v)
  · split at h
    · exact absurd h.symm (sampleXdr_head w)
    · rw [List.cons_append, List.cons_append, List.append_assoc, List.append_assoc] at h
      obtain ⟨hcode, hbc⟩ := replicate_stop_inj (by decide) (List.cons.inj h).2
      exact ⟨code_injective hcode, hbc⟩

/-- Sender 3 deposits `amount` of asset 4 for 6 on chain 2, in ledger 7. -/
def sampleDeposit (amount : Int) : Deposit := ⟨3, 4, amount, 2, 6, 7⟩

/-- Digests as numbers: the SHA-256 values of two deposits, and numbers that no 256-bit digest
has elsewhere. -/
def depositHash (b : Bytes) : Nat :=
  if b = (sampleDeposit 500).data sampleXdr then
    0x9efa8fbf779a61df315761cf00533af86c6b5df9fc4e2c434f5ab6877c26e9b5
  else if b = (sampleDeposit 600).data sampleXdr then
    0xeadc6604111c9786d835f62a36bd6dc667ea535e7e00c04d8943f4d8d6fb740e
  else 2 ^ 256 + Encodable.encode b

theorem depositHash_injective : Function.Injective depositHash := by
  intro a b h
  unfold depositHash at h
  -- digests of different branches are different numbers
  split_ifs at h with ha hb _ ha' _ hb' <;> try omega
  · exact ha.trans hb.symm
  · exact ha'.trans hb'.symm
  · exact Encodable.encode_injective (Nat.add_left_cancel h)

/-- One ledger takes both deposits. -/
def twoDeposits (first second : Int) : List (Env × Call) :=
  [(⟨⟨0, true⟩, 0, 1, []⟩, .initBridge 9 8 2 0), (⟨⟨0, true⟩, 10, 7, [3]⟩, .deposit 3 4 first 2 6),
    (⟨⟨0, true⟩, 10, 7, [3]⟩, .deposit 3 4 second 2 6)]

theorem deposit_identity_iff_two_amounts :
    ∃ (tr : Trace Nat) (s : State), Run (machine depositHash totalXdr ⟨0, true⟩) tr s ∧
      deposits tr = [sampleDeposit 600, sampleDeposit 500] ∧
      ((depositIds tr).Nodup ↔ (deposits tr).Nodup) := by
  obtain ⟨tr, s, hrun, hok⟩ := Machine.exists_run_of_replay
    (m := machine depositHash totalXdr ⟨0, true⟩) rfl (twoDeposits 500 600)
    (fun tr _ => deposits tr = [sampleDeposit 600, sampleDeposit 500])
    (by decide) (by decide) (by decide)
  exact ⟨tr, s, hrun, of_decide_eq_true hok,
    deposit_identity_iff depositHash_injective totalXdr_delimits hrun⟩

/-- **One id for two deposits**: the same deposit is made twice in ledger 7. -/
theorem deposit_identity_iff_same_ledger :
    ¬ ∀ (sha256 : Bytes → Nat) (toXdr : ScVal → Bytes), Function.Injective sha256 →
      SelfDelimiting toXdr → ∀ (d : Deployment) (tr : Trace Nat) (s : State),
        Run (machine sha256 toXdr d) tr s → (depositIds tr).Nodup := by
  intro hclaim
  obtain ⟨tr, s, hrun, hok⟩ := Machine.exists_run_of_replay
    (m := machine depositHash totalXdr ⟨0, true⟩) rfl (twoDeposits 500 500)
    (fun tr _ => deposits tr = [sampleDeposit 500, sampleDeposit 500])
    (by decide) (by decide) (by decide)
  have hnodup := hclaim _ _ depositHash_injective totalXdr_delimits _ _ _ hrun
  rw [depositIds_eq hrun, of_decide_eq_true hok] at hnodup
  exact (List.nodup_cons.mp hnodup).1 List.mem_cons_self

end Stellara.Bridge
