import ConfluxSdk.Native.Client
import ConfluxSdk.Spec.TransactionRlp

/-!
# Defaults of unsigned transactions

`ApplyUnsignedTransactionDefault` asks the node for the fields that are missing. Gas and
storage limit are completed together, and a transaction without data gets constants for
both, also where only one is missing.

## Key results

- `JsonRpcClient.fillGas_ok`: what becomes of gas and storage limit
- `applyDefault_fills_iff`: when no field of the caller is overridden
-/

namespace ConfluxSdk

namespace JsonRpcClient

variable {cl : JsonRpcClient} {t t' : TransactionBase}

/-! ### The parts -/

theorem andThen_ok {r : Completed} {f : TransactionBase → Completed}
    (h : andThen r f = (t', .ok ())) : ∃ t₁, r = (t₁, .ok ()) ∧ f t₁ = (t', .ok ()) := by
  obtain ⟨t₁, res⟩ := r
  cases res with
  | ok u => exact ⟨t₁, rfl, h⟩
  | error e => cases h

theorem assign_ok {α : Type} {reply : Except JsonRpcException α} {f : α → TransactionBase}
    (h : assign t reply f = (t', .ok ())) : ∃ v, reply = .ok v ∧ t' = f v := by
  cases reply with
  | ok v =>
    obtain rfl := (Prod.mk.inj h).1
    exact ⟨v, rfl, rfl⟩
  | error e => cases h

/-- A field that is asked for when it is missing. -/
theorem fill_ok {missing : Prop} [Decidable missing] {α : Type} {reply : Except JsonRpcException α}
    {f : α → TransactionBase}
    (h : (if missing then assign t reply f else (t, .ok ())) = (t', .ok ())) :
    (missing ∧ ∃ v, reply = .ok v ∧ t' = f v) ∨ (¬ missing ∧ t' = t) := by
  split at h
  · exact .inl ⟨‹_›, assign_ok h⟩
  · exact .inr ⟨‹_›, (Prod.mk.inj h).1.symm⟩

theorem fillNonce_ok (h : cl.fillNonce t = (t', .ok ())) :
    ∃ v, t' = { t with m_nonce := v } ∧ (t.m_nonce ≠ Invalid256 → v = t.m_nonce) ∧
      (t.m_nonce = Invalid256 → cl.cfx_getNextNonce (secret2CfxAddr cl.toKeyDerivation t.m_secret
        cl.m_networkID).getVerboseBase32Address = .ok v) := by
  rcases fill_ok h with ⟨hmissing, v, hreply, rfl⟩ | ⟨hset, rfl⟩
  · exact ⟨v, rfl, fun hset => absurd hmissing hset, fun _ => hreply⟩
  · exact ⟨t'.m_nonce, rfl, fun _ => rfl, fun hmissing => absurd hmissing hset⟩

theorem fillChainId_ok (h : cl.fillChainId t = (t', .ok ())) :
    ∃ v, t' = { t with m_chainId := v } ∧ (t.m_chainId ≠ Invalid256 → v = t.m_chainId) ∧
      (t.m_chainId = Invalid256 → ∃ id, cl.chainId = .ok id ∧ v.val = id.toNat) := by
  rcases fill_ok h with ⟨hmissing, v, hreply, rfl⟩ | ⟨hset, rfl⟩
  · exact ⟨_, rfl, fun hset => absurd hmissing hset, fun _ => ⟨v, hreply, rfl⟩⟩
  · exact ⟨t'.m_chainId, rfl, fun _ => rfl, fun hmissing => absurd hmissing hset⟩

theorem fillGasPrice_ok (h : cl.fillGasPrice t = (t', .ok ())) :
    ∃ v, t' = { t with m_gasPrice := v } ∧ (t.m_gasPrice ≠ Invalid256 → v = t.m_gasPrice) ∧
      (t.m_gasPrice = Invalid256 → ∃ price, cl.cfx_gasPrice = .ok price ∧
        v = if price < MIN_GAS_PRICE then MIN_GAS_PRICE else price) := by
  rcases fill_ok h with ⟨hmissing, v, hreply, rfl⟩ | ⟨hset, rfl⟩
  · exact ⟨_, rfl, fun hset => absurd hmissing hset, fun _ => ⟨v, hreply, rfl⟩⟩
  · exact ⟨t'.m_gasPrice, rfl, fun _ => rfl, fun hmissing => absurd hmissing hset⟩

theorem fillEpochHeight_ok (h : cl.fillEpochHeight t = (t', .ok ())) :
    ∃ v, t' = { t with m_epochHeight := v } ∧ (t.m_epochHeight ≠ Invalid256 → v = t.m_epochHeight) ∧
      (t.m_epochHeight = Invalid256 → cl.cfx_epochNumber = .ok v) := by
  rcases fill_ok h with ⟨hmissing, v, hreply, rfl⟩ | ⟨hset, rfl⟩
  · exact ⟨v, rfl, fun hset => absurd hmissing hset, fun _ => hreply⟩
  · exact ⟨t'.m_epochHeight, rfl, fun _ => rfl, fun hmissing => absurd hmissing hset⟩

/-- The storage limit an estimate stands for. -/
def estimatedStorage (estimate : EstimateGasAndCollateralResult) : U256 :=
  if estimate.storageCollateralized = 0 then 250 else estimate.storageCollateralized

/-- What becomes of gas and storage limit: both are set, or both become constants, or
    those that are missing are taken from an estimate. -/
theorem fillGas_ok (h : cl.fillGas t = (t', .ok ())) :
    (t' = t ∧ t.m_gas ≠ Invalid256 ∧ t.m_storageLimit ≠ Invalid256) ∨
    (t' = { t with m_gas := TRANSACTION_GAS, m_storageLimit := TRANSACTION_STORAGE_LIMIT } ∧
      t.m_data.toList = [] ∧ (t.m_gas = Invalid256 ∨ t.m_storageLimit = Invalid256)) ∨
    (t.m_data.toList ≠ [] ∧ ∃ estimate,
      cl.cfx_estimateGasAndCollateral (cl.estimateParam t) = .ok estimate ∧
      t' = { t with
        m_gas := if t.m_gas = Invalid256 then cl.timesRatio estimate.gasUsed else t.m_gas
        m_storageLimit :=
          if t.m_storageLimit = Invalid256 then cl.timesRatio (estimatedStorage estimate)
          else t.m_storageLimit }) := by
  unfold fillGas at h
  split at h
  · rename_i hmissing
    split at h
    · rename_i hdata
      obtain rfl := (Prod.mk.inj h).1
      exact .inr (.inl ⟨rfl, hdata, hmissing⟩)
    · rename_i hdata
      obtain ⟨estimate, hreply, rfl⟩ := assign_ok h
      refine .inr (.inr ⟨hdata, estimate, hreply, ?_⟩)
      -- Each of the two is taken from the estimate only if it is missing.
      by_cases hgas : t.m_gas = Invalid256
      · by_cases hstorage : t.m_storageLimit = Invalid256
        · simp [useEstimate, hgas, hstorage, estimatedStorage]
        · simp [useEstimate, hgas, hstorage]
      · by_cases hstorage : t.m_storageLimit = Invalid256
        · simp [useEstimate, hgas, hstorage, estimatedStorage]
        · simp [useEstimate, hgas, hstorage]
  · rename_i hset
    obtain rfl := (Prod.mk.inj h).1
    exact .inl ⟨rfl, fun hgas => hset (.inl hgas), fun hstorage => hset (.inr hstorage)⟩

/-! ### The whole -/

/-- A field that was set keeps its value. -/
def Kept (before after : U256) : Prop := before ≠ Invalid256 → after = before

variable (cl) in
/-- What a completed transaction is to be. -/
structure Fills (t t' : TransactionBase) : Prop where
  nonce : Kept t.m_nonce t'.m_nonce
  chainId : Kept t.m_chainId t'.m_chainId
  gasPrice : Kept t.m_gasPrice t'.m_gasPrice
  epochHeight : Kept t.m_epochHeight t'.m_epochHeight
  gas : Kept t.m_gas t'.m_gas
  storageLimit : Kept t.m_storageLimit t'.m_storageLimit
  type : t'.m_type = t.m_type
  value : t'.m_value = t.m_value
  data : t'.m_data = t.m_data
  receive : t'.m_receiveAddress = t.m_receiveAddress
  receive_cfx : t'.m_cfx_receiveAddress = t.m_cfx_receiveAddress
  secret : t'.m_secret = t.m_secret
  nonceFilled : t.m_nonce = Invalid256 → cl.cfx_getNextNonce (secret2CfxAddr cl.toKeyDerivation
    t.m_secret cl.m_networkID).getVerboseBase32Address = .ok t'.m_nonce
  chainIdFilled : t.m_chainId = Invalid256 →
    ∃ id, cl.chainId = .ok id ∧ t'.m_chainId.val = id.toNat
  gasPriceFilled : t.m_gasPrice = Invalid256 → ∃ price, cl.cfx_gasPrice = .ok price ∧
    t'.m_gasPrice = if price < MIN_GAS_PRICE then MIN_GAS_PRICE else price
  epochHeightFilled : t.m_epochHeight = Invalid256 → cl.cfx_epochNumber = .ok t'.m_epochHeight
  gasFilled : t.m_gas = Invalid256 →
    if t.m_data.toList = [] then t'.m_gas = TRANSACTION_GAS
    else ∃ estimate, cl.cfx_estimateGasAndCollateral (cl.estimateParam t') = .ok estimate ∧
      t'.m_gas = cl.timesRatio estimate.gasUsed
  storageLimitFilled : t.m_storageLimit = Invalid256 →
    if t.m_data.toList = [] then t'.m_storageLimit = TRANSACTION_STORAGE_LIMIT
    else ∃ estimate, cl.cfx_estimateGasAndCollateral (cl.estimateParam t') = .ok estimate ∧
      t'.m_storageLimit = cl.timesRatio (estimatedStorage estimate)

variable (cl) in
/-- What is set before gas and storage limit, and nothing else. -/
structure OthersFilled (t t₁ : TransactionBase) : Prop where
  frame : t₁ = { t with
    m_nonce := t₁.m_nonce
    m_chainId := t₁.m_chainId
    m_gasPrice := t₁.m_gasPrice
    m_epochHeight := t₁.m_epochHeight }
  nonce : Kept t.m_nonce t₁.m_nonce
  chainId : Kept t.m_chainId t₁.m_chainId
  gasPrice : Kept t.m_gasPrice t₁.m_gasPrice
  epochHeight : Kept t.m_epochHeight t₁.m_epochHeight
  nonceFilled : t.m_nonce = Invalid256 → cl.cfx_getNextNonce (secret2CfxAddr cl.toKeyDerivation
    t.m_secret cl.m_networkID).getVerboseBase32Address = .ok t₁.m_nonce
  chainIdFilled : t.m_chainId = Invalid256 →
    ∃ id, cl.chainId = .ok id ∧ t₁.m_chainId.val = id.toNat
  gasPriceFilled : t.m_gasPrice = Invalid256 → ∃ price, cl.cfx_gasPrice = .ok price ∧
    t₁.m_gasPrice = if price < MIN_GAS_PRICE then MIN_GAS_PRICE else price
  epochHeightFilled : t.m_epochHeight = Invalid256 → cl.cfx_epochNumber = .ok t₁.m_epochHeight

/-- Gas and storage limit come last. -/
theorem othersFilled_of_ok (h : cl.applyUnsignedTransactionDefault t = (t', .ok ())) :
    ∃ t₁, cl.OthersFilled t t₁ ∧ cl.fillGas t₁ = (t', .ok ()) := by
  obtain ⟨t₄, h₄, hgas⟩ := andThen_ok h
  obtain ⟨t₃, h₃, hepoch⟩ := andThen_ok h₄
  obtain ⟨t₂, h₂, hprice⟩ := andThen_ok h₃
  obtain ⟨t₁, hnonce, hchain⟩ := andThen_ok h₂
  obtain ⟨nonce, rfl, hnonceKept, hnonceFilled⟩ := fillNonce_ok hnonce
  obtain ⟨chainId, rfl, hchainKept, hchainFilled⟩ := fillChainId_ok hchain
  obtain ⟨gasPrice, rfl, hpriceKept, hpriceFilled⟩ := fillGasPrice_ok hprice
  obtain ⟨epochHeight, rfl, hepochKept, hepochFilled⟩ := fillEpochHeight_ok hepoch
  refine ⟨_, ?_, hgas⟩
  exact {
    frame := rfl
    nonce := hnonceKept
    chainId := hchainKept
    gasPrice := hpriceKept
    epochHeight := hepochKept
    nonceFilled := hnonceFilled
    chainIdFilled := hchainFilled
    gasPriceFilled := hpriceFilled
    epochHeightFilled := hepochFilled }

/-- All but gas and storage limit is as it should be, whatever these two become. -/
theorem OthersFilled.fills {t₁ : TransactionBase} (h : cl.OthersFilled t t₁)
    (hframe : t' = { t₁ with m_gas := t'.m_gas, m_storageLimit := t'.m_storageLimit })
    (hgasKept : Kept t.m_gas t'.m_gas) (hstorageKept : Kept t.m_storageLimit t'.m_storageLimit)
    (hgasFilled : t.m_gas = Invalid256 →
      if t.m_data.toList = [] then t'.m_gas = TRANSACTION_GAS
      else ∃ estimate, cl.cfx_estimateGasAndCollateral (cl.estimateParam t') = .ok estimate ∧
        t'.m_gas = cl.timesRatio estimate.gasUsed)
    (hstorageFilled : t.m_storageLimit = Invalid256 →
      if t.m_data.toList = [] then t'.m_storageLimit = TRANSACTION_STORAGE_LIMIT
      else ∃ estimate, cl.cfx_estimateGasAndCollateral (cl.estimateParam t') = .ok estimate ∧
        t'.m_storageLimit = cl.timesRatio (estimatedStorage estimate)) :
    cl.Fills t t' where
  nonce := by rw [hframe]; exact h.nonce
  chainId := by rw [hframe]; exact h.chainId
  gasPrice := by rw [hframe]; exact h.gasPrice
  epochHeight := by rw [hframe]; exact h.epochHeight
  gas := hgasKept
  storageLimit := hstorageKept
  type := by rw [hframe, h.frame]
  value := by rw [hframe, h.frame]
  data := by rw [hframe, h.frame]
  receive := by rw [hframe, h.frame]
  receive_cfx := by rw [hframe, h.frame]
  secret := by rw [hframe, h.frame]
  nonceFilled := by rw [hframe]; exact h.nonceFilled
  chainIdFilled := by rw [hframe]; exact h.chainIdFilled
  gasPriceFilled := by rw [hframe]; exact h.gasPriceFilled
  epochHeightFilled := by rw [hframe]; exact h.epochHeightFilled
  gasFilled := hgasFilled
  storageLimitFilled := hstorageFilled

end JsonRpcClient

open JsonRpcClient in
/-- A completed transaction keeps what the caller set and has the rest from the node or a
    constant, exactly when it has data or when gas and storage limit, where only one of
    them was set, had the value of the constant. -/
theorem applyDefault_fills_iff (cl : JsonRpcClient) {t t' : TransactionBase}
    (h : cl.applyUnsignedTransactionDefault t = (t', .ok ())) :
    cl.Fills t t' ↔
      (t.m_data.toList = [] →
        (t.m_storageLimit = Invalid256 → t.m_gas = Invalid256 ∨ t.m_gas = TRANSACTION_GAS) ∧
        (t.m_gas = Invalid256 → t.m_storageLimit = Invalid256 ∨
          t.m_storageLimit = TRANSACTION_STORAGE_LIMIT)) := by
  obtain ⟨t₁, hothers, hgas⟩ := othersFilled_of_ok h
  have hg : t₁.m_gas = t.m_gas := by rw [hothers.frame]
  have hs : t₁.m_storageLimit = t.m_storageLimit := by rw [hothers.frame]
  have hd : t₁.m_data = t.m_data := by rw [hothers.frame]
  rcases fillGas_ok hgas with ⟨rfl, hgasSet, hstorageSet⟩ | ⟨rfl, hdata, hmissing⟩ |
    ⟨hdata, estimate, hreply, rfl⟩
  · -- Both were set.
    rw [hg] at hgasSet
    rw [hs] at hstorageSet
    apply iff_of_true
    · exact hothers.fills rfl (fun _ => hg) (fun _ => hs) (fun hno => absurd hno hgasSet)
        (fun hno => absurd hno hstorageSet)
    · exact fun _ => ⟨fun hno => absurd hno hstorageSet, fun hno => absurd hno hgasSet⟩
  · -- Both became constants.
    rw [hd] at hdata
    rw [hg, hs] at hmissing
    constructor
    · intro h _
      refine ⟨fun _ => ?_, fun _ => ?_⟩
      · by_cases hno : t.m_gas = Invalid256
        · exact .inl hno
        · exact .inr (h.gas hno).symm
      · by_cases hno : t.m_storageLimit = Invalid256
        · exact .inl hno
        · exact .inr (h.storageLimit hno).symm
    · intro hcond
      obtain ⟨hgasCond, hstorageCond⟩ := hcond hdata
      apply hothers.fills rfl
      · intro hset
        exact ((hgasCond (hmissing.resolve_left hset)).resolve_left hset).symm
      · intro hset
        exact ((hstorageCond (hmissing.resolve_right hset)).resolve_left hset).symm
      · intro _
        rw [if_pos hdata]
      · intro _
        rw [if_pos hdata]
  · -- What was missing came from the estimate.
    rw [hd] at hdata
    simp only [hg, hs]
    apply iff_of_true
    · apply hothers.fills rfl
      · exact fun hset => if_neg hset
      · exact fun hset => if_neg hset
      · intro hno
        rw [if_neg hdata]
        exact ⟨estimate, hreply, if_pos hno⟩
      · intro hno
        rw [if_neg hdata]
        exact ⟨estimate, hreply, if_pos hno⟩
    · exact fun hno => absurd hno hdata

/-- A client on the main network whose node replies the same to every question. -/
def sampleClient : JsonRpcClient where
  toPublic _ := .zero 64
  sha3 _ := .zero 32
  cfx_getNextNonce _ := .ok 7
  chainId := .ok 1029
  cfx_gasPrice := .ok 0
  cfx_epochNumber := .ok 100
  cfx_estimateGasAndCollateral _ := .ok ⟨50000, 26000, 0⟩
  m_networkID := 1029
  timesRatio v := ⟨v.val * 11 / 10 % 2 ^ 256, Nat.mod_lt _ (by decide)⟩

/-- A transfer of 1000 with nothing else set. -/
def sampleTransfer : TransactionBase := .ofMessageCall Address.default 1000 (.zero 32)

open JsonRpcClient in
theorem applyDefault_fills_sampleTransfer :
    sampleClient.Fills sampleTransfer { sampleTransfer with
      m_nonce := 7
      m_chainId := 1029
      m_gasPrice := 1
      m_epochHeight := 100
      m_gas := 21000
      m_storageLimit := 0 } := by
  have happlied : sampleClient.applyUnsignedTransactionDefault sampleTransfer =
      ({ sampleTransfer with
        m_nonce := 7
        m_chainId := 1029
        m_gasPrice := 1
        m_epochHeight := 100
        m_gas := 21000
        m_storageLimit := 0 }, .ok ()) := by
    -- Compared as it is, the default address would be parsed.
    rw [sampleTransfer]
    generalize Address.default = dest
    rfl
  exact (applyDefault_fills_iff sampleClient happlied).mpr
    fun _ => ⟨fun _ => .inl rfl, fun _ => .inl rfl⟩

open JsonRpcClient in
/-- A gas limit of the caller is overridden where the storage limit is missing. -/
theorem applyDefault_overrides_gas :
    ∃ t', sampleClient.applyUnsignedTransactionDefault
        { sampleTransfer with m_gas := 100000 } = (t', .ok ()) ∧
      (100000 : U256) ≠ Invalid256 ∧ t'.m_gas = 21000 ∧ ¬ Kept 100000 t'.m_gas := by
  refine ⟨_, rfl, by decide, rfl, fun hkept => ?_⟩
  exact absurd (hkept (by decide)) (by decide)

end ConfluxSdk
