import ConfluxSdk.Spec.AbiDecodeCorrect
import ConfluxSdk.Spec.AbiEncodeCorrect
import ConfluxSdk.Spec.AbiDecodeFuel
import ConfluxSdk.Native.CfxAddress
import ConfluxSdk.ForStd.FeedbackRegister
import ConfluxSdk.Spec.ChecksumCorrect
import ConfluxSdk.Spec.AddressBytes
import ConfluxSdk.Spec.AddressRoundTrip
import ConfluxSdk.Spec.AddressCanonical
import ConfluxSdk.Spec.AddressOrder
import ConfluxSdk.Spec.AddressTypos
import ConfluxSdk.Spec.AddressTotal
import ConfluxSdk.ForStd.LengthPrefix
import ConfluxSdk.Native.Rlp
import ConfluxSdk.Spec.RlpWriteCorrect
import ConfluxSdk.Spec.RlpReadCorrect
import ConfluxSdk.Spec.RlpCanonical
import ConfluxSdk.Native.TransactionBase
import ConfluxSdk.Spec.TransactionRlp
import ConfluxSdk.ForStd.Runs
import ConfluxSdk.ForStd.Polling
import ConfluxSdk.ForStd.Simulation
import ConfluxSdk.Spec.TransactionCache
import ConfluxSdk.ForStd.OrderedMap
import ConfluxSdk.Native.CommonData
import ConfluxSdk.Native.KeyFile
import ConfluxSdk.Native.JsonSpirit
import ConfluxSdk.Spec.JsonSpiritCorrect
import ConfluxSdk.Native.SecretStore
import ConfluxSdk.Native.KeyCrypto
import ConfluxSdk.Spec.KeyCryptoCorrect
import ConfluxSdk.Native.StoreDirectory
import ConfluxSdk.Spec.StoreFiles
import ConfluxSdk.Spec.StoreDirectoryCorrect
import ConfluxSdk.Spec.StoreRestarts
import ConfluxSdk.Native.Account
import ConfluxSdk.ForStd.Vault
import ConfluxSdk.Spec.SecretStoreCorrect
import ConfluxSdk.Spec.AccountCorrect
import ConfluxSdk.Spec.AccountKeys
import ConfluxSdk.Spec.AccountThreadsCorrect
import ConfluxSdk.Spec.AbiSignedCorrect
import ConfluxSdk.Native.Client
import ConfluxSdk.Spec.ClientDefaults
import ConfluxSdk.Spec.TransactionSign
import ConfluxSdk.ForStd.JoinFilter
import ConfluxSdk.Native.BloomFilter
import ConfluxSdk.Native.JsonCpp
import ConfluxSdk.Native.LogFilter
import ConfluxSdk.Native.TransactionReceipt
import ConfluxSdk.Native.Contract
import ConfluxSdk.Spec.BloomCorrect
import ConfluxSdk.Spec.AbiFixArray
import ConfluxSdk.Spec.AbiFactoryTypes
import ConfluxSdk.Native.AbiCollection
import ConfluxSdk.Spec.AbiArrayTypes
import ConfluxSdk.Spec.AbiStaticTuples
import ConfluxSdk.Spec.AbiEmptyArrays
import ConfluxSdk.ForStd.Threaded
import ConfluxSdk.Spec.AbiDecodeOrder
import ConfluxSdk.ForStd.Walk
import ConfluxSdk.Spec.AbiDecodeStops
import ConfluxSdk.Spec.AbiArrayGrowth
import ConfluxSdk.Spec.AbiBytesBounds
import ConfluxSdk.Spec.AbiFixedBytes
import ConfluxSdk.Spec.NetworkNames
import ConfluxSdk.Spec.AddressBuffers
import ConfluxSdk.Spec.AddressCache
import ConfluxSdk.Spec.AddressCase
import ConfluxSdk.Spec.LogEntryRlp
import ConfluxSdk.Native.CommonJS
import ConfluxSdk.Spec.QuantityText
import ConfluxSdk.Spec.QuantityInt
import ConfluxSdk.Native.AbiValue
import ConfluxSdk.ForStd.Delimited
import ConfluxSdk.Spec.JsonStrings
import ConfluxSdk.Spec.AbiValueTexts
import ConfluxSdk.Spec.JsonScalars
import ConfluxSdk.Spec.AbiArrayTexts
import ConfluxSdk.Native.RpcReplies
import ConfluxSdk.Native.Currency
import ConfluxSdk.ForStd.BitGroups
import ConfluxSdk.Spec.ConvertExact
import ConfluxSdk.Spec.AbiTwosComplement
import ConfluxSdk.Spec.HexDecode
import ConfluxSdk.Spec.BoostNumbers
import ConfluxSdk.Spec.SignatureFields
import ConfluxSdk.Spec.CurrencyUnits
import ConfluxSdk.Spec.NodeTexts
import ConfluxSdk.Spec.LogSearch
import ConfluxSdk.Spec.ReceiptCorrect
import ConfluxSdk.Spec.TransactionWaiting
import ConfluxSdk.Spec.ContractDeploy
import ConfluxSdk.Spec.ContractCall
