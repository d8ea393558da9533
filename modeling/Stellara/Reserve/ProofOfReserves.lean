import Stellara.Lib.Merkle
import Stellara.Reserve.Model

/-!
# Proofs of reserves (`proof_of_reserves.rs`)

The balances of the holders are the leaves of a Merkle tree, whose root the contract
publishes.  Three functions go over the levels on their own: one builds the tree, one collects
the proof of a leaf, one goes up from a leaf by its proof.

The builder combines an unpaired last node with itself.  The collector leaves that node's
sibling out of the proof, and the verifier goes up a level only where the proof has an entry.
So a proof is accepted where its path meets no such node, and with an injective hash nowhere
else:

    Verifies H holders i  ↔  HasSiblings holders.length i            (verifies_iff)

and the root commits to the list with the entries under such nodes repeated:

    same root  ↔  complete l₁ = complete l₂                           (generateMerkleTree_eq_iff)

`keccak256` is a parameter.  What is hashed is the encoding of a holder with a balance or two
digests side by side, which differ in their length.
-/

namespace Stellara.Reserve

open Outcome Governance

/-- What is hashed. -/
inductive Preimage (D : Type)
  /-- `(holder, balance).to_xdr()` -/
  | leaf (data : Address × Nat)
  /-- `[left.to_array(), right.to_array()].concat()` -/
  | pair (left right : D)
deriving DecidableEq, Repr

/-- The host's digests. -/
structure Hashing (D : Type) where
  keccak256 : Preimage D → D
  /-- `BytesN::from_array(&env, &[0u8; 32])` -/
  zeros : D

variable {D : Type}

namespace Hashing

def leafHash (H : Hashing D) (data : Address × Nat) : D := H.keccak256 (.leaf data)

def parentHash (H : Hashing D) (left right : D) : D := H.keccak256 (.pair left right)

/-- A digest of an entry, not of a pair. -/
def IsLeaf (H : Hashing D) (d : D) : Prop := ∃ data, d = H.leafHash data

end Hashing

/-! ## The three loops -/

/-- One round of `while current_level.len() > 1`, on `i` in `(0..len).step_by(2)`. -/
def nextLevel (H : Hashing D) : List D → List D := Merkle.levelUp H.parentHash

def generateMerkleTree (H : Hashing D) (holderBalances : List (Address × Nat)) : Result D :=
  if holderBalances = [] then pure H.zeros
  else ofOption (Merkle.root H.parentHash (holderBalances.map H.leafHash)) (.panic "unwrap")

def verifyMerkleProof (H : Hashing D) (leaf : D) (proof : List D) (leafIndex : Nat) : Result D :=
  pure (Merkle.recompute H.parentHash leaf proof leafIndex)

/-- The loop of `generate_proof_for_leaf`. -/
def collectProof (H : Hashing D) (level : List D) (index : Nat) (proof : List D) :
    Result (List D) :=
  if 1 < level.length then do
    let proof ←
      if index % 2 = 0 then
        if index + 1 < level.length then do
          let right ← ofOption level[index + 1]? (.panic "unwrap")
          pure (proof ++ [right])
        -- the unpaired last node: the proof gets no entry for this level
        else pure proof
      else do
        let left ← ofOption level[index - 1]? (.panic "unwrap")
        pure (proof ++ [left])
    collectProof H (nextLevel H level) (index / 2) proof
  else pure proof
termination_by level.length
decreasing_by
  unfold nextLevel
  rw [Merkle.length_levelUp]
  omega

def generateProofForLeaf (H : Hashing D) (holderBalances : List (Address × Nat))
    (leafIndex : Nat) : Result (List D) :=
  collectProof H (holderBalances.map H.leafHash) leafIndex []

/-! ## What is published -/

/-- The contract's state with what `proof_of_reserves.rs` stores. -/
structure ProofState (D : Type) extends State where
  stablecoin : Option Address := none
  merkleTrees : Option D := none
  proofGenerationTime : Option Nat := none

structure MerkleProof (D : Type) where
  leaf : D
  proof : List D
  leafIndex : Nat
  root : D

/-- The holders are not read from the token yet. -/
def getAllHolderBalances (s : ProofState D) : Result (List (Address × Nat)) := do
  let _ ← ofOption s.stablecoin (.err .invalidAsset)
  pure []

def generateDailyProof (H : Hashing D) (env : CallEnv) (s : ProofState D) :
    Result (D × ProofState D) := do
  match s.proofGenerationTime with
  | some lastGeneration => do
    let since ← env.u64 ((env.timestamp : Int) - lastGeneration)
    require (since / (24 * 60 * 60) ≠ 0) (.err .invalidMerkleProof)
  | none => pure ()
  let _ ← ofOption s.reserveAssets (.err .invalidAsset)
  let holderBalances ← getAllHolderBalances s
  let root ← generateMerkleTree H holderBalances
  pure (root, { s with merkleTrees := some root, proofGenerationTime := some env.timestamp })

/-- `generate_proof_of_reserves` of `lib.rs`. -/
def generateProofOfReserves (H : Hashing D) (env : CallEnv) (s : ProofState D) :
    Result (D × ProofState D) := do
  requireRole env .admin
  generateDailyProof H env s

def verifyInclusion [DecidableEq D] (H : Hashing D) (s : ProofState D) (user : Address)
    (amount : Nat) (proof : List D) (leafIndex : Nat) : Result Bool := do
  let currentRoot ← ofOption s.merkleTrees (.err .invalidMerkleProof)
  let computedRoot ← verifyMerkleProof H (H.leafHash (user, amount)) proof leafIndex
  pure (computedRoot = currentRoot)

def generateUserProof (H : Hashing D) (s : ProofState D) (user : Address) (amount : Nat) :
    Result (MerkleProof D) := do
  let holderBalances ← getAllHolderBalances s
  let leafIndex ← ofOption (holderBalances.findIdx? (· = (user, amount))) (.err .invalidMerkleProof)
  let root ← generateMerkleTree H holderBalances
  let proof ← generateProofForLeaf H holderBalances leafIndex
  pure ⟨H.leafHash (user, amount), proof, leafIndex, root⟩

/-! ## Lemmas -/

section Loops

variable {H : Hashing D} {holders : List (Address × Nat)} {i : Nat}

theorem collectProof_ok {level : List D} (proof : List D) (hi : i < level.length) :
    collectProof H level i proof = .ok (proof ++ Merkle.path H.parentHash level i) := by
  induction level using Merkle.root.induct H.parentHash generalizing i proof with
  | case1 level hlen ih =>
    have hup : i / 2 < (nextLevel H level).length := by
      unfold nextLevel
      rw [Merkle.length_levelUp]
      omega
    rw [collectProof, if_pos hlen, Merkle.path_levelUp hlen, Merkle.sibling]
    by_cases he : i % 2 = 0
    · rw [if_pos he, if_pos he]
      by_cases hlast : i + 1 < level.length
      · rw [if_pos hlast, List.getElem?_eq_getElem hlast]
        simpa [nextLevel] using ih (proof ++ [level[i + 1]]) hup
      · rw [if_neg hlast, List.getElem?_eq_none (by omega)]
        exact ih proof hup
    · have hleft : i - 1 < level.length := by omega
      rw [if_neg he, if_neg he, List.getElem?_eq_getElem hleft]
      simpa [nextLevel] using ih (proof ++ [level[i - 1]]) hup
  | case2 level hlen =>
    rw [collectProof, if_neg hlen, Merkle.path_of_le (by omega), List.append_nil]
    rfl

theorem generateProofForLeaf_ok (hi : i < holders.length) :
    generateProofForLeaf H holders i =
      .ok (Merkle.path H.parentHash (holders.map H.leafHash) i) :=
  collectProof_ok [] (by rwa [List.length_map])

theorem isLeaf_of_mem : ∀ d ∈ holders.map H.leafHash, H.IsLeaf d := by
  intro d hd
  obtain ⟨data, _, rfl⟩ := List.mem_map.mp hd
  exact ⟨data, rfl⟩

/-- The tree of a non-empty list has a root. -/
theorem generateMerkleTree_ok (hne : holders ≠ []) {root : D} :
    generateMerkleTree H holders = .ok root ↔
      Merkle.root H.parentHash (holders.map H.leafHash) = some root := by
  unfold generateMerkleTree
  rw [if_neg hne, ofOption_eq_ok]

/-- An injective hash makes the parents free. -/
theorem free_of_injective (hinj : Function.Injective H.keccak256) :
    Merkle.Free H.parentHash H.IsLeaf where
  node_inj h := by
    have := hinj h
    simpa using this
  leaf_ne := by
    rintro a b c ⟨data, rfl⟩ h
    have := hinj h
    simp at this

theorem leafHash_injective (hinj : Function.Injective H.keccak256) :
    Function.Injective H.leafHash := by
  intro a b h
  have := hinj h
  simpa using this

end Loops

/-! ## Completeness -/

/-- The proof collected for leaf `i` leads the verifier from that leaf to the root. -/
def Verifies (H : Hashing D) (holders : List (Address × Nat)) (i : Nat) : Prop :=
  ∃ leaf proof root, holders[i]? = some leaf ∧ generateProofForLeaf H holders i = .ok proof ∧
    generateMerkleTree H holders = .ok root ∧
    verifyMerkleProof H (H.leafHash leaf) proof i = .ok root

theorem verifies_path {H : Hashing D} {holders : List (Address × Nat)} {i : Nat}
    {leaf : Address × Nat} (hi : holders[i]? = some leaf) :
    Verifies H holders i ↔
      Merkle.root H.parentHash (holders.map H.leafHash) =
        some (Merkle.recompute H.parentHash (H.leafHash leaf)
          (Merkle.path H.parentHash (holders.map H.leafHash) i) i) := by
  have hlt : i < holders.length := (List.getElem?_eq_some_iff.mp hi).1
  have hne : holders ≠ [] := List.ne_nil_of_length_pos (by omega)
  unfold Verifies verifyMerkleProof
  constructor
  · rintro ⟨leaf', proof, root, hleaf, hproof, hroot, hver⟩
    rw [hi] at hleaf
    obtain rfl := Option.some.inj hleaf
    rw [generateProofForLeaf_ok hlt] at hproof
    obtain rfl := Except.ok.inj hproof
    rw [pure_eq_ok] at hver
    rw [hver]
    exact (generateMerkleTree_ok hne).mp hroot
  · intro h
    exact ⟨leaf, _, _, hi, generateProofForLeaf_ok hlt, (generateMerkleTree_ok hne).mpr h, rfl⟩

section Completeness

variable {H : Hashing D} {holders : List (Address × Nat)} {i : Nat}

theorem getElem?_leaves {leaf : Address × Nat} (hi : holders[i]? = some leaf) :
    (holders.map H.leafHash)[i]? = some (H.leafHash leaf) := by
  rw [List.getElem?_map, hi]
  rfl

theorem verifies_of_hasSiblings (hi : i < holders.length)
    (hs : Merkle.HasSiblings holders.length i) : Verifies H holders i := by
  have hleaf : holders[i]? = some holders[i] := List.getElem?_eq_getElem hi
  rw [verifies_path hleaf]
  apply Merkle.recompute_path (getElem?_leaves hleaf)
  rwa [List.length_map]

theorem verifies_iff_hasSiblings (hinj : Function.Injective H.keccak256)
    (hi : i < holders.length) :
    Verifies H holders i ↔ Merkle.HasSiblings holders.length i := by
  have hleaf : holders[i]? = some holders[i] := List.getElem?_eq_getElem hi
  rw [verifies_path hleaf, Merkle.recompute_path_iff (free_of_injective hinj) isLeaf_of_mem
    (getElem?_leaves hleaf), List.length_map]

end Completeness

/-- A path that meets no unpaired node is accepted, whatever the hash; with an injective hash
no other path is. -/
theorem verifies_iff (H : Hashing D) (holders : List (Address × Nat)) (i : Nat)
    (hi : i < holders.length) :
    (Merkle.HasSiblings holders.length i → Verifies H holders i) ∧
      (Function.Injective H.keccak256 →
        (Verifies H holders i ↔ Merkle.HasSiblings holders.length i)) :=
  ⟨verifies_of_hasSiblings hi, fun hinj => verifies_iff_hasSiblings hinj hi⟩

/-- `verify_inclusion` against the published root of the holders: the entry point of the
contract accepts what the loops agree on. -/
theorem verifyInclusion_iff [DecidableEq D] {H : Hashing D} {holders : List (Address × Nat)}
    {i : Nat} {user : Address} {amount : Nat} {s : ProofState D} {root : D} {proof : List D}
    (hi : holders[i]? = some (user, amount)) (hroot : generateMerkleTree H holders = .ok root)
    (hs : s.merkleTrees = some root) (hproof : generateProofForLeaf H holders i = .ok proof) :
    verifyInclusion H s user amount proof i = .ok true ↔ Verifies H holders i := by
  have hver : verifyInclusion H s user amount proof i = .ok true ↔
      verifyMerkleProof H (H.leafHash (user, amount)) proof i = .ok root := by
    simp [verifyInclusion, hs, ofOption, verifyMerkleProof]
  rw [hver]
  constructor
  · intro h
    exact ⟨(user, amount), proof, root, hi, hproof, hroot, h⟩
  · rintro ⟨leaf, proof', root', hi', hproof', hroot', h⟩
    rw [hi] at hi'
    rw [hproof] at hproof'
    rw [hroot] at hroot'
    obtain rfl := Option.some.inj hi'
    obtain rfl := Except.ok.inj hproof'
    obtain rfl := Except.ok.inj hroot'
    exact h

/-- Digests as the terms that are hashed. -/
inductive Digest
  | zeros
  | leaf (data : Address × Nat)
  | pair (left right : Digest)
deriving DecidableEq, Repr

/-- The hash without collisions. -/
def symbolic : Hashing Digest where
  keccak256
    | .leaf data => .leaf data
    | .pair left right => .pair left right
  zeros := .zeros

theorem symbolic_injective : Function.Injective symbolic.keccak256 := by
  intro p q h
  cases p <;> cases q <;> simp_all [symbolic]

def threeHolders : List (Address × Nat) := [(1, 100), (2, 200), (3, 300)]

/-- The first two of three holders have a proof. -/
theorem verifies_iff_three : Verifies symbolic threeHolders 1 :=
  (verifies_iff symbolic threeHolders 1 (by decide)).1 (by decide)

/-- The third is the unpaired last leaf: its proof is the hash of the other two, with which
the verifier combines the leaf itself instead of the leaf's parent. -/
theorem third_of_three_refused :
    generateProofForLeaf symbolic threeHolders 2 =
        .ok [.pair (.leaf (1, 100)) (.leaf (2, 200))] ∧
      generateMerkleTree symbolic threeHolders =
        .ok (.pair (.pair (.leaf (1, 100)) (.leaf (2, 200)))
          (.pair (.leaf (3, 300)) (.leaf (3, 300)))) ∧
      ¬ Verifies symbolic threeHolders 2 := by
  refine ⟨?_, ?_, ?_⟩
  · rw [generateProofForLeaf_ok (by decide)]
    simp [threeHolders, Merkle.path, Merkle.sibling, Merkle.levelUp, Hashing.leafHash,
      Hashing.parentHash, symbolic]
  · rw [generateMerkleTree_ok (by decide)]
    simp [threeHolders, Merkle.root, Merkle.levelUp, Hashing.leafHash, Hashing.parentHash,
      symbolic]
  · rw [verifies_iff_hasSiblings symbolic_injective (by decide)]
    decide

/-! ## Binding -/

/-- Two lists have one root when they are completed to one list. -/
theorem generateMerkleTree_eq_iff {H : Hashing D} (hinj : Function.Injective H.keccak256)
    {l₁ l₂ : List (Address × Nat)} (h₁ : l₁ ≠ []) (h₂ : l₂ ≠ []) :
    generateMerkleTree H l₁ = generateMerkleTree H l₂ ↔
      Merkle.complete l₁ = Merkle.complete l₂ := by
  have hroot : Merkle.root H.parentHash (l₁.map H.leafHash) =
      Merkle.root H.parentHash (l₂.map H.leafHash) ↔
      Merkle.complete l₁ = Merkle.complete l₂ := by
    rw [Merkle.root_eq_iff (free_of_injective hinj) isLeaf_of_mem isLeaf_of_mem
      (by simpa using h₁) (by simpa using h₂), Merkle.complete_map, Merkle.complete_map]
    exact (List.map_injective_iff.mpr (leafHash_injective hinj)).eq_iff
  rw [← hroot]
  obtain ⟨r₁, hr₁, -⟩ := @Merkle.spans_root _ H.parentHash _ (l₁.map H.leafHash) isLeaf_of_mem
    (by simpa using h₁)
  rw [(generateMerkleTree_ok h₁).mpr hr₁, hr₁, eq_comm, generateMerkleTree_ok h₂, eq_comm]

/-- **Binding**: two different lists have different roots when they are not completed to the
same list. -/
theorem roots_differ_iff (H : Hashing D) (hinj : Function.Injective H.keccak256)
    (l₁ l₂ : List (Address × Nat)) (h₁ : l₁ ≠ []) (h₂ : l₂ ≠ []) (_ : l₁ ≠ l₂) :
    generateMerkleTree H l₁ ≠ generateMerkleTree H l₂ ↔
      Merkle.complete l₁ ≠ Merkle.complete l₂ :=
  not_congr (generateMerkleTree_eq_iff hinj h₁ h₂)

theorem roots_differ_two_three :
    generateMerkleTree symbolic [(1, 100), (2, 200)] ≠ generateMerkleTree symbolic threeHolders :=
  (roots_differ_iff symbolic symbolic_injective [(1, 100), (2, 200)] threeHolders (by decide)
    (by decide) (by decide)).mpr (by decide)

/-- An entry that is listed twice at the end of an even list can be left out once. -/
theorem same_root_three_four :
    Function.Injective symbolic.keccak256 ∧
      threeHolders ≠ threeHolders ++ [(3, 300)] ∧
      generateMerkleTree symbolic threeHolders =
        generateMerkleTree symbolic (threeHolders ++ [(3, 300)]) := by
  refine ⟨symbolic_injective, by decide, ?_⟩
  rw [generateMerkleTree_eq_iff symbolic_injective (by decide) (by decide)]
  decide

end Stellara.Reserve
