import ConfluxSdk.Native.Account

/-!
# The RPC client

Model of the part of `libcfxcore/rpc/client` that completes a transaction before it is
signed. What the node replies is a parameter, as the values the methods of the client
read from the replies; a reply may be an exception, which leaves what was assigned
before.

`cpp_dec_float_50` is a type of another library. The product of a number and the
ratio 1.1, cut to an integer, is a parameter too.
-/

namespace ConfluxSdk

/-- An exception of the stub client. -/
structure JsonRpcException where
  message : Str
  deriving DecidableEq, Repr

/-- The first parameter of `cfx_estimateGasAndCollateral`. The two addresses are sent for
    all transactions but contract creations; a text that overruns its buffer is
    undefined. -/
structure EstimateParam where
  gasPrice : Str
  nonce : Str
  value : Str
  data : Str
  fromAddr : Option (Option Str)
  toAddr : Option (Option Str)
  deriving DecidableEq, Repr

/-- `EstimateGasAndCollateralResult`. -/
structure EstimateGasAndCollateralResult where
  gasLimit : U256
  gasUsed : U256
  storageCollateralized : U256
  deriving DecidableEq, Repr

/-- The replies of the node, by what was asked; the epoch is always `latest_state`. -/
structure Node where
  cfx_getNextNonce : Option Str → Except JsonRpcException U256
  chainId : Except JsonRpcException UInt32
  cfx_gasPrice : Except JsonRpcException U256
  cfx_epochNumber : Except JsonRpcException U256
  cfx_estimateGasAndCollateral : EstimateParam →
    Except JsonRpcException EstimateGasAndCollateralResult

/-- `JsonRpcClient`. -/
structure JsonRpcClient extends KeyDerivation, Node where
  m_networkID : UInt32
  timesRatio : U256 → U256

namespace JsonRpcClient

/-- `MIN_GAS_PRICE`. -/
def MIN_GAS_PRICE : U256 := 1

/-- `TRANSACTION_GAS`. -/
def TRANSACTION_GAS : U256 := 21000

/-- `TRANSACTION_STORAGE_LIMIT`. -/
def TRANSACTION_STORAGE_LIMIT : U256 := 0

/-- A transaction after a method of the client, and whether the method returned. -/
abbrev Completed := TransactionBase × Except JsonRpcException Unit

/-- Two parts of a method; the second is not run after an exception. -/
def andThen (r : Completed) (f : TransactionBase → Completed) : Completed :=
  match r with
  | (t, .ok ()) => f t
  | (t, .error e) => (t, .error e)

variable (cl : JsonRpcClient) (t : TransactionBase)

/-- An assignment of a reply. -/
def assign {α : Type} (reply : Except JsonRpcException α) (f : α → TransactionBase) : Completed :=
  match reply with
  | .ok v => (f v, .ok ())
  | .error e => (t, .error e)

/-- `param1` of `cfx_estimateGasAndCollateral`. -/
def estimateParam : EstimateParam where
  gasPrice := Dev.toJS t.m_gasPrice
  nonce := Dev.toJS t.m_nonce
  value := Dev.toJS t.m_value
  data :=
    let js_data_str := Dev.toJSBytes t.m_data.toList
    if js_data_str = [] then "0x".toList else js_data_str
  -- A contract creation has no receiver, and its sender is not sent either.
  fromAddr :=
    if !t.isCreation then
      some (secret2CfxAddr cl.toKeyDerivation t.m_secret cl.m_networkID).getVerboseBase32Address
    else none
  toAddr := if !t.isCreation then some t.m_cfx_receiveAddress.getVerboseBase32Address else none

/-- The nonce, if it is missing. -/
def fillNonce : Completed :=
  if t.m_nonce = Invalid256 then
    let fromAddr := secret2CfxAddr cl.toKeyDerivation t.m_secret cl.m_networkID
    assign t (cl.cfx_getNextNonce fromAddr.getVerboseBase32Address) fun v => { t with m_nonce := v }
  else (t, .ok ())

/-- The chain id, if it is missing. -/
def fillChainId : Completed :=
  if t.m_chainId = Invalid256 then
    assign t cl.chainId fun v => { t with m_chainId := ⟨v.toNat, Nat.lt_trans v.toNat_lt (by decide)⟩ }
  else (t, .ok ())

/-- The gas price, if it is missing. -/
def fillGasPrice : Completed :=
  if t.m_gasPrice = Invalid256 then
    assign t cl.cfx_gasPrice fun v =>
      { t with m_gasPrice := if v < MIN_GAS_PRICE then MIN_GAS_PRICE else v }
  else (t, .ok ())

/-- The epoch height, if it is missing. -/
def fillEpochHeight : Completed :=
  if t.m_epochHeight = Invalid256 then
    assign t cl.cfx_epochNumber fun v => { t with m_epochHeight := v }
  else (t, .ok ())

/-- What an estimate gives for a transaction with data. -/
def useEstimate (estimate : EstimateGasAndCollateralResult) : TransactionBase :=
  let storageCollateralized :=
    if estimate.storageCollateralized = 0 then 250 else estimate.storageCollateralized
  -- The margin is for both.
  let gas := cl.timesRatio estimate.gasUsed
  let storageLimit := cl.timesRatio storageCollateralized
  let t := if t.m_gas = Invalid256 then { t with m_gas := gas } else t
  if t.m_storageLimit = Invalid256 then { t with m_storageLimit := storageLimit } else t

/-- Gas and storage limit, if one of them is missing. -/
def fillGas : Completed :=
  if t.m_gas = Invalid256 ∨ t.m_storageLimit = Invalid256 then
    if t.m_data.toList = [] then
      -- Both are set, also the one that was not missing.
      ({ t with m_gas := TRANSACTION_GAS, m_storageLimit := TRANSACTION_STORAGE_LIMIT }, .ok ())
    else assign t (cl.cfx_estimateGasAndCollateral (cl.estimateParam t)) (cl.useEstimate t)
  else (t, .ok ())

/-- `ApplyUnsignedTransactionDefault`. -/
def applyUnsignedTransactionDefault : Completed :=
  andThen (andThen (andThen (andThen (cl.fillNonce t) cl.fillChainId) cl.fillGasPrice)
    cl.fillEpochHeight) cl.fillGas

end JsonRpcClient

end ConfluxSdk
