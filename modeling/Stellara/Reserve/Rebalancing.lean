import Stellara.Reserve.Model

/-!
# What a rebalancing does to the reserve

    exec env .executeRebalancing s = .ok (r, s') →
      (Preserved s s' ∧ Converged env s' ↔ Settles env s)                  (rebalanced_iff)

A type is off its goal by what all its entries hold together, and the goal is then written
into the first of them.  Further entries keep what they hold, and a type without an entry
gets none.  So the total is preserved exactly if these two cancel out (`Settles.total`), and
the next check is content exactly if what the types then hold, the further entries
included, is near enough to the targets.  A reserve that is held in dollars alone loses six
tenths of its value and is as far from its targets as before (`rebalanced_loses`).
-/

namespace Stellara.Reserve

open Outcome Governance

/-! ## Who sets the targets -/

/-- The first target of the type is replaced; without one, the target is added. -/
def setAllocation (allocation : TargetAllocation) : List TargetAllocation → List TargetAllocation
  | [] => [allocation]
  | target :: rest =>
    if target.assetType = allocation.assetType then allocation :: rest
    else target :: setAllocation allocation rest

/-- `update_target_allocation` of `rebalancing.rs`. -/
def updateTargetAllocation (env : CallEnv) (s : State) (assetType : AssetType)
    (targetPercentage minPercentage maxPercentage : Nat) : Result State := do
  requireRole env .admin
  let allocation : TargetAllocation := ⟨assetType, targetPercentage, minPercentage, maxPercentage⟩
  pure { s with targetAllocations := some (setAllocation allocation (s.targetAllocations.getD [])) }

/-- The entry points, and the function that changes the targets, which none of them calls. -/
inductive AllocationCall
  | contract (call : Call)
  | updateTargetAllocation (assetType : AssetType)
      (targetPercentage minPercentage maxPercentage : Nat)
deriving DecidableEq, Repr

def execAllocating (env : CallEnv) : AllocationCall → State → Result (Reply × State)
  | .contract call, s => exec env call s
  | .updateTargetAllocation assetType targetPercentage minPercentage maxPercentage, s =>
    done (updateTargetAllocation env s assetType targetPercentage minPercentage maxPercentage)

/-- Runs start before any targets are stored. -/
def allocating (d : Deployment) :
    Machine CallEnv AllocationCall Reply (Fault ReserveError) State where
  init s := s.targetAllocations = none
  valid env _ := env.Of d
  clock env := env.timestamp
  exec env call s := execAllocating env call s

instance allocatingValid (d : Deployment) (env : CallEnv) (call : AllocationCall) :
    Decidable ((allocating d).valid env call) :=
  inferInstanceAs (Decidable (env.Of d))

abbrev AllocationTrace : Type := List (Event CallEnv AllocationCall Reply State)

/-- The targets in force. -/
def State.targets (s : State) : List TargetAllocation := s.targetAllocations.getD []

theorem mem_setAllocation {allocation target : TargetAllocation} {targets : List TargetAllocation}
    (h : target ∈ setAllocation allocation targets) : target = allocation ∨ target ∈ targets := by
  induction targets with
  | nil => exact .inl (List.mem_singleton.mp h)
  | cons first rest ih =>
    unfold setAllocation at h
    split at h
    · rcases List.mem_cons.mp h with h | h
      · exact .inl h
      · exact .inr (List.mem_cons_of_mem _ h)
    · rcases List.mem_cons.mp h with rfl | h
      · exact .inr List.mem_cons_self
      · exact (ih h).imp id (List.mem_cons_of_mem _)

/-- No type gets a second target. -/
theorem setAllocation_nodup (allocation : TargetAllocation) {targets : List TargetAllocation}
    (h : (targets.map TargetAllocation.assetType).Nodup) :
    ((setAllocation allocation targets).map TargetAllocation.assetType).Nodup := by
  induction targets with
  | nil => exact List.nodup_singleton _
  | cons first rest ih =>
    rw [List.map_cons, List.nodup_cons] at h
    unfold setAllocation
    split
    · next htype => rwa [List.map_cons, List.nodup_cons, ← htype]
    · next htype =>
      rw [List.map_cons, List.nodup_cons]
      refine ⟨fun hmem => ?_, ih h.2⟩
      obtain ⟨target, hmem, heq⟩ := List.mem_map.mp hmem
      rcases mem_setAllocation hmem with rfl | hmem
      · exact htype heq.symm
      · exact h.1 (List.mem_map.mpr ⟨target, hmem, heq⟩)

theorem executeRebalancing_ok {env : CallEnv} {s s' : State}
    (h : executeRebalancing env s = .ok s') :
    ∃ assets total assets' total' snapshot, s.reserveAssets = some assets ∧
      totalAmount env assets = .ok total ∧ total ≠ 0 ∧
      rebalanced env total s.targets assets = .ok assets' ∧ totalAmount env assets' = .ok total' ∧
      s' = { s with reserveAssets := some assets', currentSnapshot := some snapshot } := by
  simp only [executeRebalancing, bind_eq_ok, require_eq_ok, exists_unit_and, ofOption_eq_ok] at h
  obtain ⟨_, -, -, assets, hassets, total, htotal, h0, assets', hloop, hsnapshot⟩ := h
  simp only [updateSnapshot, bind_eq_ok, pure_eq_ok] at hsnapshot
  obtain ⟨total', htotal', _, -, rfl⟩ := hsnapshot
  exact ⟨assets, total, assets', total', _, hassets, htotal, h0, hloop, htotal', rfl⟩

/-- A call of the contract keeps the targets or stores the default ones. -/
theorem exec_targets {env : CallEnv} {call : Call} {r : Reply} {s s' : State}
    (h : exec env call s = .ok (r, s')) :
    s'.targetAllocations = s.targetAllocations ∨
      s'.targetAllocations = some defaultAllocations := by
  cases call with
  | initContract =>
    simp only [exec, pure_eq_ok, Prod.mk.injEq] at h
    obtain ⟨-, rfl⟩ := h
    exact .inr rfl
  | addReserveAsset assetType amount custodian verificationHash =>
    obtain ⟨snapshot, rfl⟩ := updateSnapshot_ok (guarded_ok h).1
    exact .inl rfl
  | updateReserveAsset assetIndex newAmount verificationHash =>
    obtain ⟨assets, snapshot, rfl⟩ := updateAsset_ok (guarded_ok h).1
    exact .inl rfl
  | executeRebalancing =>
    obtain ⟨_, _, assets', _, snapshot, -, -, -, -, -, rfl⟩ := executeRebalancing_ok (guarded_ok h).1
    exact .inl rfl
  | requestRedemption amount =>
    simp only [exec, requestOwn, bind_eq_ok, require_eq_ok, exists_unit_and, pure_eq_ok,
      Prod.mk.injEq] at h
    obtain ⟨-, ⟨id, s1⟩, hcall, rfl, rfl⟩ := h
    obtain ⟨_, _, -, -, -, rfl⟩ := requestRedemption_ok hcall
    exact .inl rfl
  | processRedemption id =>
    have h := (guarded_ok h).1
    simp only [processRedemption, updateRequest, removeFromQueue, updateTotalSupply, bind_eq_ok,
      require_eq_ok, requireRole_eq_ok, exists_unit_and, ofOption_eq_ok, pure_eq_ok] at h
    obtain ⟨-, _, -, _, -, -, _, -, -, _, -, -, s1, ⟨_, -, rfl⟩, s2, ⟨_, -, rfl⟩, _, -, hsnapshot⟩ := h
    obtain ⟨snapshot, rfl⟩ := updateSnapshot_ok hsnapshot
    exact .inl rfl
  | approveRedemption id =>
    have h := (done_ok.mp h).1
    simp only [approveRedemption, updateRequest, bind_eq_ok, require_eq_ok, requireRole_eq_ok,
      exists_unit_and, pure_eq_ok] at h
    obtain ⟨-, _, -, _, -, -, _, -, rfl⟩ := h
    exact .inl rfl
  | rejectRedemption id reason =>
    have h := (done_ok.mp h).1
    simp only [rejectRedemption, updateRequest, removeFromQueue, bind_eq_ok, require_eq_ok,
      requireRole_eq_ok, exists_unit_and, ofOption_eq_ok, pure_eq_ok] at h
    obtain ⟨-, _, -, _, -, -, s1, ⟨_, -, rfl⟩, _, -, rfl⟩ := h
    exact .inl rfl
  | updateRedemptionConfig config =>
    obtain rfl := updateRedemptionConfig_ok (done_ok.mp h).1
    exact .inl rfl

/-- **Every type has at most one target**, in every state a run reaches. -/
theorem targets_nodup {d : Deployment} {tr : AllocationTrace} {s : State}
    (h : Run (allocating d) tr s) : (s.targets.map TargetAllocation.assetType).Nodup := by
  refine h.invariant
    (I := fun s => (s.targets.map TargetAllocation.assetType).Nodup) ?_ ?_
  · intro s hnone
    have hnone : s.targetAllocations = none := hnone
    unfold State.targets
    rw [hnone]
    exact List.nodup_nil
  · intro env call r s s' _ hnodup hx
    cases call with
    | contract call =>
      unfold State.targets
      rcases exec_targets hx with hkeep | hdefault
      · rw [hkeep]
        exact hnodup
      · rw [hdefault]
        decide
    | updateTargetAllocation assetType targetPercentage minPercentage maxPercentage =>
      have hx := (done_ok.mp hx).1
      simp only [updateTargetAllocation, bind_eq_ok, requireRole_eq_ok, exists_unit_and,
        pure_eq_ok] at hx
      obtain ⟨-, rfl⟩ := hx
      exact setAllocation_nodup _ hnodup

/-! ## Sums of assets -/

/-- What assets are worth together. -/
def value (assets : List ReserveAsset) : Nat := (assets.map ReserveAsset.amount).sum

/-- What all the entries of a type hold. -/
def held (assetType : AssetType) (assets : List ReserveAsset) : Nat :=
  value (assets.filter fun asset => asset.assetType = assetType)

/-- What the first entry of a type holds. -/
def firstAmount (assetType : AssetType) (assets : List ReserveAsset) : Option Nat :=
  (assets.find? fun asset => asset.assetType = assetType).map ReserveAsset.amount

@[simp] theorem value_nil : value [] = 0 := rfl

@[simp] theorem value_cons (asset : ReserveAsset) (assets : List ReserveAsset) :
    value (asset :: assets) = asset.amount + value assets := by
  simp [value]

theorem held_cons (assetType : AssetType) (asset : ReserveAsset) (assets : List ReserveAsset) :
    held assetType (asset :: assets) =
      (if asset.assetType = assetType then asset.amount else 0) + held assetType assets := by
  unfold held
  by_cases htype : asset.assetType = assetType
  · rw [List.filter_cons_of_pos (by simpa using htype), value_cons, if_pos htype]
  · rw [List.filter_cons_of_neg (by simpa using htype), if_neg htype, Nat.zero_add]

theorem firstAmount_cons (assetType : AssetType) (asset : ReserveAsset)
    (assets : List ReserveAsset) :
    firstAmount assetType (asset :: assets) =
      if asset.assetType = assetType then some asset.amount
      else firstAmount assetType assets := by
  unfold firstAmount
  by_cases htype : asset.assetType = assetType
  · rw [List.find?_cons_of_pos (by simpa using htype), if_pos htype]
    rfl
  · rw [List.find?_cons_of_neg (by simpa using htype), if_neg htype]

theorem held_le_value (assetType : AssetType) (assets : List ReserveAsset) :
    held assetType assets ≤ value assets :=
  ((List.filter_sublist (p := fun asset : ReserveAsset => decide (asset.assetType = assetType))
    (l := assets)).map ReserveAsset.amount).sum_le_sum fun _ _ => Nat.zero_le _

section Arithmetic

variable {env : CallEnv} {assets : List ReserveAsset}

theorem u128_bind_add (env : Env) {x y : Int} (hx : 0 ≤ x) (hy : 0 ≤ y) :
    (env.u128 x >>= fun n => (env.u128 (n + y) : Result Nat)) = env.u128 (x + y) := by
  unfold Env.u128
  rw [← Checked.unsigned_bind_add hx hy]
  cases Checked.unsigned env.overflowChecks 128 x <;> rfl

/-- The sum that the code computes entry by entry. -/
theorem totalAmount_eq (env : CallEnv) (assets : List ReserveAsset) :
    totalAmount env assets = env.u128 (value assets) := by
  have key : ∀ x : Int, 0 ≤ x →
      (env.u128 x >>= fun total => assets.foldlM
        (fun total asset => env.u128 (total + asset.amount)) total) =
        (env.u128 (x + value assets) : Result Nat) := by
    induction assets with
    | nil =>
      intro x _
      rw [value_nil, Nat.cast_zero, add_zero]
      exact bind_pure _
    | cons asset assets ih =>
      intro x hx
      simp only [List.foldlM_cons]
      rw [← bind_assoc, u128_bind_add env.toEnv hx (Int.natCast_nonneg _),
        ih _ (add_nonneg hx (Int.natCast_nonneg _)), value_cons, Nat.cast_add, add_assoc]
  have h0 : (env.u128 0 : Result Nat) = .ok 0 := u128_of_in env.toEnv le_rfl (by decide)
  have hkey := key 0 le_rfl
  rw [h0, zero_add] at hkey
  exact hkey

theorem getAssetAmountByType_eq (env : CallEnv) (assets : List ReserveAsset)
    (assetType : AssetType) :
    getAssetAmountByType env assets assetType = env.u128 (held assetType assets) :=
  totalAmount_eq env _

/-- Where the total is computed, so is what each type holds. -/
theorem held_computed {total : Nat} (h : totalAmount env assets = .ok total)
    (assetType : AssetType) :
    getAssetAmountByType env assets assetType = .ok (asU128 (held assetType assets)) := by
  rw [totalAmount_eq] at h
  obtain ⟨n, hn⟩ := Checked.unsigned_mono (ofOption_eq_ok.mp h) (Int.natCast_nonneg _)
    (Int.ofNat_le.mpr (held_le_value assetType assets))
  have hn : (env.u128 (held assetType assets) : Result Nat) = .ok n := ofOption_eq_ok.mpr hn
  rw [getAssetAmountByType_eq, hn, u128_eq_asU128 hn]

end Arithmetic

/-! ## The check -/

/-- The distance of a share from a target, in basis points. -/
def deviation (share target : Nat) : Nat := max share target - min share target

/-- The threshold in force. -/
def State.threshold (s : State) : Nat := s.rebalancingThreshold.getD 500

/-- The assets in store. -/
def State.assets (s : State) : List ReserveAsset := s.reserveAssets.getD []

/-- The share that the code computes for an amount. -/
def OnTarget (env : CallEnv) (total threshold amount target : Nat) : Prop :=
  ∃ scaled, (env.u128 (asU128 amount * 10000) : Result Nat) = .ok scaled ∧
    deviation (scaled / total) target ≤ threshold

instance onTargetDecidable (env : CallEnv) (total threshold amount target : Nat) :
    Decidable (OnTarget env total threshold amount target) :=
  decidable_of_iff
    ((env.u128 (asU128 amount * 10000) : Result Nat).toOption.any fun scaled =>
      deviation (scaled / total) target ≤ threshold) <| by
    unfold OnTarget
    cases (env.u128 (asU128 amount * 10000) : Result Nat) <;> simp [Except.toOption]

theorem deviates_eq_false {env : CallEnv} {assets : List ReserveAsset} {total threshold : Nat}
    {targets : List TargetAllocation} (h : totalAmount env assets = .ok total) :
    deviates env assets total threshold targets = .ok false ↔
      ∀ target ∈ targets,
        OnTarget env total threshold (held target.assetType assets) target.targetPercentage := by
  induction targets with
  | nil => simp [deviates]
  | cons target rest ih =>
    rw [List.forall_mem_cons, ← ih, deviates, held_computed h]
    unfold OnTarget deviation
    constructor
    · intro hx
      obtain ⟨current, hcurrent, hx⟩ := bind_eq_ok.mp hx
      cases hcurrent
      obtain ⟨scaled, hscaled, hx⟩ := bind_eq_ok.mp hx
      dsimp only at hx
      split at hx
      · cases hx
      · next hnear => exact ⟨⟨scaled, hscaled, Nat.le_of_not_lt hnear⟩, hx⟩
    · rintro ⟨⟨scaled, hscaled, hnear⟩, hx⟩
      refine bind_eq_ok.mpr ⟨_, rfl, bind_eq_ok.mpr ⟨scaled, hscaled, ?_⟩⟩
      dsimp only
      rw [if_neg (Nat.not_lt.mpr hnear), hx]

/-- **The check is content** with a reserve that is not empty exactly if every type that has a
target is near it. -/
theorem check_eq_false {env : CallEnv} {s : State} {assets : List ReserveAsset} {total : Nat}
    (hassets : s.reserveAssets = some assets) (htotal : totalAmount env assets = .ok total)
    (h0 : total ≠ 0) :
    checkRebalancingNeeded env s = .ok false ↔
      ∀ target ∈ s.targets, OnTarget env total s.threshold (held target.assetType assets)
        target.targetPercentage := by
  rw [← deviates_eq_false htotal]
  unfold checkRebalancingNeeded
  rw [hassets]
  show (totalAmount env assets >>= _) = _ ↔ _
  rw [htotal]
  show (if total = 0 then _ else _) = _ ↔ _
  rw [if_neg h0]
  rfl

/-! ## One target after another -/

section Update

variable {assetType : AssetType} {assets : List ReserveAsset} (newAmount : Nat)

/-- The first entry of the type takes the new amount. -/
theorem update_first {amount : Nat} (h : firstAmount assetType assets = some amount) :
    held assetType (updateAssetAmountByType assetType newAmount assets) + amount =
        held assetType assets + newAmount ∧
      value (updateAssetAmountByType assetType newAmount assets) + amount =
        value assets + newAmount ∧ amount ≤ held assetType assets := by
  induction assets with
  | nil => cases h
  | cons asset rest ih =>
    rw [firstAmount_cons] at h
    unfold updateAssetAmountByType
    by_cases htype : asset.assetType = assetType
    · rw [if_pos htype] at h
      cases h
      rw [if_pos htype, held_cons, held_cons, if_pos htype, if_pos htype, value_cons, value_cons]
      dsimp only
      omega
    · rw [if_neg htype] at h
      obtain ⟨hheld, hvalue, hle⟩ := ih h
      rw [if_neg htype, held_cons, held_cons, if_neg htype, value_cons, value_cons]
      omega

/-- Without an entry of the type nothing changes. -/
theorem update_missing (h : firstAmount assetType assets = none) :
    updateAssetAmountByType assetType newAmount assets = assets := by
  induction assets with
  | nil => rfl
  | cons asset rest ih =>
    rw [firstAmount_cons] at h
    unfold updateAssetAmountByType
    by_cases htype : asset.assetType = assetType
    · rw [if_pos htype] at h
      cases h
    · rw [if_neg htype] at h
      rw [if_neg htype, ih h]

/-- The other types keep what they hold. -/
theorem update_other {other : AssetType} (hne : assetType ≠ other) :
    held other (updateAssetAmountByType assetType newAmount assets) = held other assets ∧
      firstAmount other (updateAssetAmountByType assetType newAmount assets) =
        firstAmount other assets := by
  induction assets with
  | nil => exact ⟨rfl, rfl⟩
  | cons asset rest ih =>
    unfold updateAssetAmountByType
    by_cases htype : asset.assetType = assetType
    · have hother : asset.assetType ≠ other := htype ▸ hne
      rw [if_pos htype, held_cons, held_cons, firstAmount_cons, firstAmount_cons, if_neg hother,
        if_neg hother, if_neg hother, if_neg hother]
      exact ⟨rfl, rfl⟩
    · rw [if_neg htype, held_cons, held_cons, firstAmount_cons, firstAmount_cons, ih.1, ih.2]
      exact ⟨rfl, rfl⟩

end Update

/-- What the target asks for. -/
def goal (total : Nat) (target : TargetAllocation) : Nat :=
  asU128 (total * target.targetPercentage) / 10000

/-- What the entries of the target's type will hold: where the type has an entry and is off its
goal, the goal and what the further entries hold. -/
def settled (total : Nat) (assets : List ReserveAsset) (target : TargetAllocation) : Nat :=
  match firstAmount target.assetType assets with
  | none => held target.assetType assets
  | some amount =>
    if asU128 (held target.assetType assets) = goal total target then
      held target.assetType assets
    else goal total target + (held target.assetType assets - amount)

/-- One turn of the loop. -/
def settle (total : Nat) (target : TargetAllocation) (assets : List ReserveAsset) :
    List ReserveAsset :=
  if asU128 (held target.assetType assets) ≠ goal total target then
    updateAssetAmountByType target.assetType (goal total target) assets
  else assets

section Settle

variable {total : Nat} {target : TargetAllocation} {assets : List ReserveAsset}

/-- **One turn of the loop**, for the type of the target. -/
theorem settle_own (total : Nat) (target : TargetAllocation) (assets : List ReserveAsset) :
    held target.assetType (settle total target assets) = settled total assets target ∧
      value (settle total target assets) + held target.assetType assets =
        value assets + settled total assets target := by
  unfold settle settled
  cases hfirst : firstAmount target.assetType assets with
  | none =>
    rw [update_missing _ hfirst, ite_self]
    exact ⟨rfl, rfl⟩
  | some amount =>
    obtain ⟨hheld, hvalue, hle⟩ := update_first (goal total target) hfirst
    by_cases hgoal : asU128 (held target.assetType assets) = goal total target
    · rw [if_neg (not_not.mpr hgoal)]
      dsimp only
      rw [if_pos hgoal]
      exact ⟨rfl, rfl⟩
    · rw [if_pos hgoal]
      dsimp only
      rw [if_neg hgoal]
      omega

/-- What later targets see of their types is not changed. -/
theorem settle_other {other : AssetType} (hne : target.assetType ≠ other) :
    held other (settle total target assets) = held other assets ∧
      firstAmount other (settle total target assets) = firstAmount other assets := by
  unfold settle
  split
  · exact update_other _ hne
  · exact ⟨rfl, rfl⟩

theorem settled_other {other : TargetAllocation} (hne : target.assetType ≠ other.assetType) :
    settled total (settle total target assets) other = settled total assets other := by
  unfold settled
  rw [(settle_other hne).1, (settle_other hne).2]

end Settle

/-- The loop is one turn after another. -/
theorem rebalanced_cons {env : CallEnv} {total : Nat} {target : TargetAllocation}
    {rest : List TargetAllocation} {assets assets' : List ReserveAsset}
    (h : rebalanced env total (target :: rest) assets = .ok assets') :
    rebalanced env total rest (settle total target assets) = .ok assets' := by
  rw [rebalanced, getAssetAmountByType_eq] at h
  obtain ⟨current, hcurrent, h⟩ := bind_eq_ok.mp h
  obtain ⟨_, -, h⟩ := bind_eq_ok.mp h
  obtain ⟨scaled, hscaled, h⟩ := bind_eq_ok.mp h
  rw [u128_eq_asU128 hcurrent, u128_eq_asU128 hscaled] at h
  exact h

/-- **The whole loop**: every type with a target holds what it was to hold, and the value has
moved by as much. -/
theorem rebalanced_ok {env : CallEnv} {total : Nat} {targets : List TargetAllocation}
    {assets assets' : List ReserveAsset}
    (hnodup : (targets.map TargetAllocation.assetType).Nodup)
    (h : rebalanced env total targets assets = .ok assets') :
    (∀ target ∈ targets, held target.assetType assets' = settled total assets target) ∧
      (∀ other, other ∉ targets.map TargetAllocation.assetType →
        held other assets' = held other assets) ∧
      value assets' + (targets.map fun target => held target.assetType assets).sum =
        value assets + (targets.map (settled total assets)).sum := by
  induction targets generalizing assets with
  | nil =>
    cases h
    exact ⟨fun _ h => absurd h List.not_mem_nil, fun _ _ => rfl, rfl⟩
  | cons target rest ih =>
    rw [List.map_cons, List.nodup_cons] at hnodup
    obtain ⟨hown, hvalue⟩ := settle_own total target assets
    obtain ⟨hrest, hothers, hsum⟩ := ih hnodup.2 (rebalanced_cons h)
    -- the types of the targets that follow are other types
    have hne : ∀ other ∈ rest, target.assetType ≠ other.assetType := fun other hmem heq =>
      hnodup.1 (heq ▸ List.mem_map_of_mem hmem)
    have hheld : (rest.map fun other => held other.assetType (settle total target assets)) =
        rest.map fun other => held other.assetType assets :=
      List.map_congr_left fun other hmem => (settle_other (hne other hmem)).1
    have hsettled : rest.map (settled total (settle total target assets)) =
        rest.map (settled total assets) :=
      List.map_congr_left fun other hmem => settled_other (hne other hmem)
    rw [hheld, hsettled] at hsum
    refine ⟨?_, ?_, ?_⟩
    · rw [List.forall_mem_cons]
      refine ⟨?_, fun other hmem => ?_⟩
      · rw [hothers _ hnodup.1, hown]
      · rw [hrest other hmem, settled_other (hne other hmem)]
    · intro other hmem
      rw [List.map_cons, List.mem_cons, not_or] at hmem
      rw [hothers other hmem.2, (settle_other (Ne.symm hmem.1)).1]
    · rw [List.map_cons, List.map_cons, List.sum_cons, List.sum_cons]
      omega

/-! ## Value and convergence -/

/-- The value of the reserve is what it was. -/
def Preserved (s s' : State) : Prop := value s'.assets = value s.assets

/-- The share of every type that has a target is near it, and a check made in any later call
reports nothing to do. -/
structure Converged (d : Deployment) (s : State) : Prop where
  share : ∀ target ∈ s.targets,
    deviation (held target.assetType s.assets * 10000 / value s.assets) target.targetPercentage ≤
      s.threshold
  content : ∀ later : CallEnv, later.Of d → checkRebalancingNeeded later s = .ok false

/-- What a reserve has to be like for a rebalancing to do its work: the goals that are written
make up for the first entries they replace, and what each type is to hold, its further entries
included, is near its target, also as the code computes it. -/
structure Settles (env : CallEnv) (s : State) : Prop where
  total : (s.targets.map (settled (asU128 (value s.assets)) s.assets)).sum =
    (s.targets.map fun target => held target.assetType s.assets).sum
  share : ∀ target ∈ s.targets,
    deviation (settled (asU128 (value s.assets)) s.assets target * 10000 / value s.assets)
      target.targetPercentage ≤ s.threshold
  computed : ∀ target ∈ s.targets,
    OnTarget env (asU128 (value s.assets)) s.threshold
      (settled (asU128 (value s.assets)) s.assets target) target.targetPercentage

instance settlesDecidable (env : CallEnv) (s : State) : Decidable (Settles env s) :=
  decidable_of_iff (_ ∧ (∀ target ∈ s.targets, _) ∧ ∀ target ∈ s.targets, _)
    ⟨fun ⟨ht, hs, hc⟩ => ⟨ht, hs, hc⟩, fun h => ⟨h.total, h.share, h.computed⟩⟩

/-- The arithmetic is the same in every call. -/
theorem u128_congr {env later : Env} (h : later.toDeployment = env.toDeployment) (x : Int) :
    (later.u128 x : Result Nat) = env.u128 x := by
  unfold Env.u128
  rw [h]

theorem onTarget_congr {env later : CallEnv} (h : later.toDeployment = env.toDeployment)
    {total threshold amount target : Nat} :
    OnTarget later total threshold amount target ↔ OnTarget env total threshold amount target := by
  unfold OnTarget
  rw [u128_congr h]

/-- **A rebalancing preserves the value and converges** if and only if the reserve settles. -/
theorem rebalanced_iff {d : Deployment} {tr : AllocationTrace} {env : CallEnv} {r : Reply}
    {s s' : State} (hrun : Run (allocating d) tr s) (hv : env.Of d)
    (hx : exec env .executeRebalancing s = .ok (r, s')) :
    Preserved s s' ∧ Converged d s' ↔ Settles env s := by
  obtain ⟨assets, total, assets', total', snapshot, hassets, htotal, h0, hloop, htotal', rfl⟩ :=
    executeRebalancing_ok (guarded_ok hx).1
  have hown : s.assets = assets := by
    unfold State.assets
    rw [hassets]
    rfl
  have hsum : total = asU128 (value s.assets) := by
    rw [totalAmount_eq, ← hown] at htotal
    exact u128_eq_asU128 htotal
  obtain ⟨hheld, -, hvalue⟩ := rebalanced_ok (targets_nodup hrun) hloop
  rw [← hown] at hheld hvalue
  rw [hsum] at hheld hvalue h0
  -- once the value is preserved, the check computes with the total it started from
  have hcheck : value assets' = value s.assets → ∀ later : CallEnv, later.Of d →
      (checkRebalancingNeeded later
          { s with reserveAssets := some assets', currentSnapshot := some snapshot } = .ok false ↔
        ∀ target ∈ s.targets, OnTarget env (asU128 (value s.assets)) s.threshold
          (settled (asU128 (value s.assets)) s.assets target) target.targetPercentage) := by
    intro hkept later hlater
    have hdeployment : later.toDeployment = env.toDeployment := hlater.1.trans hv.1.symm
    have hlatest : totalAmount later assets' = .ok (asU128 (value s.assets)) := by
      rw [totalAmount_eq, u128_congr hdeployment, ← totalAmount_eq, htotal', ← hkept]
      rw [totalAmount_eq] at htotal'
      rw [u128_eq_asU128 htotal']
    rw [check_eq_false rfl hlatest h0]
    refine forall₂_congr fun target hmem => ?_
    rw [onTarget_congr hdeployment, hheld target hmem]
    rfl
  constructor
  · rintro ⟨hkept, hshare, hcontent⟩
    have hkept : value assets' = value s.assets := hkept
    refine ⟨by omega, fun target hmem => ?_, ?_⟩
    · have hnear := hshare target hmem
      rw [← hheld target hmem, ← hkept]
      exact hnear
    · exact (hcheck hkept env hv).mp (hcontent env hv)
  · rintro ⟨hbalance, hshare, hcomputed⟩
    have hkept : value assets' = value s.assets := by omega
    refine ⟨hkept, fun target hmem => ?_, fun later hlater => ?_⟩
    · have hnear := hshare target hmem
      rw [← hheld target hmem, ← hkept] at hnear
      exact hnear
    · exact (hcheck hkept later hlater).mpr hcomputed

/-- The default targets, and entries of the given amounts. -/
def stocked (amounts : List (AssetType × Nat)) : List (CallEnv × AllocationCall) :=
  (callAt true 0 9, .contract .initContract) ::
    amounts.map fun (assetType, amount) =>
      (callAt true 0 9, .contract (.addReserveAsset assetType amount 7 "hash"))

/-- One entry for each target, the first of them too large. -/
theorem rebalanced_stocked :
    ∃ (tr : AllocationTrace) (s s' : State) (r : Reply), Run (allocating ⟨0, true⟩) tr s ∧
      exec (callAt true 1 9) .executeRebalancing s = .ok (r, s') ∧
      Preserved s s' ∧ Converged ⟨0, true⟩ s' := by
  obtain ⟨tr, s, hrun, hok⟩ := Machine.exists_run_of_replay (m := allocating ⟨0, true⟩) (s := {})
    rfl (stocked [(.usd, 5000), (.treasury, 3000), (.repo, 2000), (.corporateBond, 0)])
    (fun _ s => Settles (callAt true 1 9) s ∧
      (exec (callAt true 1 9) .executeRebalancing s).toOption.isSome)
    (by decide) (by decide) (by decide)
  obtain ⟨hsettles, hdone⟩ := of_decide_eq_true hok
  obtain ⟨⟨r, s'⟩, hx⟩ := Option.isSome_iff_exists.mp hdone
  have hx := eq_ok_of_toOption hx
  exact ⟨tr, s, s', r, hrun, hx, (rebalanced_iff hrun (by decide) hx).mpr hsettles⟩

/-- A reserve of dollars alone: of ten thousand, four are left, and the check finds the same
deviation as before. -/
theorem rebalanced_loses :
    ∃ (tr : AllocationTrace) (s s' : State) (r : Reply), Run (allocating ⟨0, true⟩) tr s ∧
      exec (callAt true 1 9) .executeRebalancing s = .ok (r, s') ∧
      value s.assets = 10000 ∧ value s'.assets = 4000 ∧
      checkRebalancingNeeded (callAt true 1 9) s' = .ok true := by
  obtain ⟨tr, s, hrun, hok⟩ := Machine.exists_run_of_replay (m := allocating ⟨0, true⟩) (s := {})
    rfl (stocked [(.usd, 10000)])
    (fun _ s => value s.assets = 10000 ∧
      (exec (callAt true 1 9) .executeRebalancing s).toOption.isSome ∧
      ∀ x ∈ (exec (callAt true 1 9) .executeRebalancing s).toOption, value x.2.assets = 4000 ∧
        (checkRebalancingNeeded (callAt true 1 9) x.2).toOption = some true)
    (by decide) (by decide) (by decide)
  obtain ⟨hvalue, hdone, hafter⟩ := of_decide_eq_true hok
  obtain ⟨⟨r, s'⟩, hx⟩ := Option.isSome_iff_exists.mp hdone
  obtain ⟨hvalue', hcheck⟩ := hafter _ hx
  exact ⟨tr, s, s', r, hrun, eq_ok_of_toOption hx, hvalue, hvalue', eq_ok_of_toOption hcheck⟩

end Stellara.Reserve
