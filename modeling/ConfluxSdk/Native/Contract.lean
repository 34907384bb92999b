import ConfluxSdk.Native.AbiDecode
import ConfluxSdk.Native.TransactionReceipt

/-!
# Transactions that are sent and contracts that are called

Model of the methods of `rpc/client` that send transactions, deploy contracts and make calls,
and of `libcfxcore/contract`.

What the stub client replies is a parameter, by what it is called with. A text of an address
that overruns its buffer is undefined, as in `EstimateParam`.
-/

namespace ConfluxSdk

/-- What the methods throw: an exception of the stub client, of the transaction, of the
    standard library, or one while a reply is read. -/
inductive ClientError where
  | rpc (e : JsonRpcException)
  | transaction (e : TransactionError)
  | std (e : StdError)
  | reply
  deriving DecidableEq, Repr

/-! ### Requests -/

/-- `CallRequest`. -/
structure CallRequest where
  fromAddr : Address
  toAddr : Address
  value : U256
  data : List UInt8
  nonce : U256
  gas : U256
  gasPrice : U256
  epochNumber : EpochNumber

/-- `CallRequest::CallRequest`. -/
def CallRequest.new : CallRequest where
  fromAddr := Address.default
  toAddr := Address.default
  value := 0
  data := []
  nonce := 0
  gas := 500000000
  gasPrice := 1
  epochNumber := .latest_state

/-- The first parameter of `cfx_call`. -/
structure CallParam where
  fromAddr : Option (Option Str)
  toAddr : Option (Option Str)
  gas : Str
  gasPrice : Str
  nonce : Str
  value : Str
  data : Str
  deriving DecidableEq, Repr

/-- `param1` of `cfx_call`. -/
def CallRequest.param (callRequest : CallRequest) : CallParam where
  -- The default addresses are valid, so a sender is always sent.
  fromAddr :=
    if callRequest.fromAddr.isValid then some callRequest.fromAddr.getVerboseBase32Address else none
  toAddr :=
    if callRequest.toAddr.isValid then some callRequest.toAddr.getVerboseBase32Address else none
  gas := Dev.toJS callRequest.gas
  gasPrice := Dev.toJS callRequest.gasPrice
  nonce := Dev.toJS callRequest.nonce
  value := Dev.toJS callRequest.value
  data :=
    let js_data_str := Dev.toJSBytes callRequest.data
    if js_data_str = [] then "0x".toList else js_data_str

/-- The methods of the stub client that are called here. The reply about a transaction depends
    on the number of the time it is asked for. -/
structure StubClient where
  cfx_sendRawTransaction : Str → Except JsonRpcException Str
  cfx_call : CallParam → Str → Except JsonRpcException Str
  cfx_getTransactionByHash : Str → Nat → Except JsonRpcException JsonMembers

/-- `JsonRpcClient` with its stub client and the library that signs. The result that replies
    are read into has members that are not initialised. -/
structure SendingClient extends JsonRpcClient, Crypto where
  stub_client : StubClient
  boost : Boost
  fresh : TransactionByHashResult

/-- `Contract`. -/
structure Contract where
  client : SendingClient
  address : Address

/-- `ContractDeployResult`. -/
structure ContractDeployResult where
  status : TransactionStatus
  transactionHash : FixedHash 32
  contractCreatedAddr : Address
  deployedContract : Option Contract

namespace SendingClient

variable (cl : SendingClient)

/-! ### Sending -/

/-- `cfx_sendRawTransaction`. -/
def cfx_sendRawTransaction (raw : List UInt8) : Except JsonRpcException Str :=
  cl.stub_client.cfx_sendRawTransaction (Dev.toJSBytes raw)

/-- `sendTransaction`. -/
def sendTransaction (transaction : TransactionBase) : TransactionBase × Except ClientError Str :=
  match cl.applyUnsignedTransactionDefault transaction with
  | (t, .error e) => (t, .error (.rpc e))
  | (t, .ok ()) =>
    match t.signTransaction cl.toCrypto with
    | (t, .error e) => (t, .error (.transaction e))
    | (t, .ok raw) => (t, (cl.cfx_sendRawTransaction raw).mapError .rpc)

/-- `sendTransaction` of a value. -/
def sendValue (toAddr : Address) (value : U256) (secret : FixedHash 32) : Except ClientError Str :=
  (cl.sendTransaction (.ofMessageCall toAddr value secret)).2

/-- `cfx_call`. -/
def cfx_call (callRequest : CallRequest) : Except JsonRpcException (List UInt8) :=
  (cl.stub_client.cfx_call callRequest.param callRequest.epochNumber.epoch_number_js_str).map
    replyBytes

/-! ### Deploying -/

/-- `cfx_getTransactionByHash`, the `i`-th time it is called. -/
def cfx_getTransactionByHash (transactionHash : Str) (i : Nat) :
    Except ClientError TransactionByHashResult :=
  match cl.stub_client.cfx_getTransactionByHash transactionHash i with
  | .error e => .error (.rpc e)
  | .ok js =>
    match TransactionByHashResult.fromJson cl.boost cl.fresh (some js) with
    | some (_, res) => .ok res
    | none => .error .reply

/-- The loop of `DeployContract` from the `i`-th time on, or none where it has not ended after
    so many times. -/
def deployLoop (transHash : Str) : Nat → Nat → Option (Except ClientError TransactionByHashResult)
  | 0, _ => none
  | fuel + 1, i =>
    match cl.cfx_getTransactionByHash transHash i with
    | .error e => some (.error e)
    | .ok res =>
      if res.status = .skippedOrNotPacked then deployLoop transHash fuel (i + 1)
      else some (.ok res)

/-- What `DeployContract` returns for the status of the transaction. -/
def deployResult (res : TransactionByHashResult) : ContractDeployResult :=
  if res.status = .success then
    { status := res.status
      transactionHash := res.hash
      contractCreatedAddr := res.contractCreated
      deployedContract := some ⟨cl, res.contractCreated⟩ }
  else
    { status := res.status
      transactionHash := .zero 32
      contractCreatedAddr := Address.invaildAddress
      deployedContract := none }

/-- `DeployContract`, which starts with the steps of `sendTransaction`. -/
def deployContract (transaction : TransactionBase) (fuel : Nat) :
    Option (TransactionBase × Except ClientError ContractDeployResult) :=
  match cl.sendTransaction transaction with
  | (t, .error e) => some (t, .error e)
  | (t, .ok transHash) =>
    (cl.deployLoop transHash fuel 0).map fun res => (t, res.map cl.deployResult)

/-- `DeployContract` of a code and the encoded arguments of its constructor. -/
def deployCode (contractBytes constructor_abi : List UInt8) (secret : FixedHash 32) (fuel : Nat) :
    Option (Except ClientError ContractDeployResult) :=
  let payload := contractBytes ++ constructor_abi
  if h : payload.length < 2 ^ 63 then
    (cl.deployContract (.ofContractCreation ⟨payload, h⟩ secret) fuel).map Prod.snd
  else some (.error (.std .lengthError))

end SendingClient

namespace Contract

variable (c : Contract)

/-! ### Contract -/

/-- `Call` with encoded arguments. -/
def callData (args : List UInt8) : Except JsonRpcException (List UInt8) :=
  c.client.cfx_call { CallRequest.new with toAddr := c.address, data := args }

/-- `Call` of a function: the bytes of the reply, and the function with its outputs. Whether
    these could be decoded is not looked at. -/
def call (keccak256 : Abi.Function.Keccak) (func : Abi.Function) :
    Except ClientError (List UInt8 × Abi.Function) := do
  let retBytes ← (c.callData (func.encode keccak256 [])).mapError .rpc
  if h : retBytes.length < 2 ^ 63 then
    let (_, func, _) ← (func.decodeOutput ⟨retBytes, h⟩ 0).mapError .std
    .ok (retBytes, func)
  else .error (.std .lengthError)

/-- `SendTransaction` with encoded arguments. -/
def sendData (args : Bytes) (secret : FixedHash 32) (value : U256) : Except ClientError Str :=
  let trans := TransactionBase.ofMessageCall c.address value secret
  (c.client.sendTransaction (trans.withData args)).2

/-- `SendTransaction` of a function. -/
def sendTransaction (keccak256 : Abi.Function.Keccak) (func : Abi.Function)
    (secret : FixedHash 32) (value : U256) : Except ClientError Str :=
  let param := func.encode keccak256 []
  if h : param.length < 2 ^ 63 then c.sendData ⟨param, h⟩ secret value
  else .error (.std .lengthError)

end Contract

end ConfluxSdk
