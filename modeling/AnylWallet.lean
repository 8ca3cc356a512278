import AnylWallet.AbiCompiler.Generated
import AnylWallet.AbiCompiler.Overloads
import AnylWallet.AbiCompiler.Unsupported
import AnylWallet.Eth.Canonical
import AnylWallet.Eth.Data
import AnylWallet.Eth.DataPointer
import AnylWallet.Eth.DecoderFaults
import AnylWallet.Eth.EncodedSize
import AnylWallet.Eth.ErrorReply
import AnylWallet.Eth.SignedMessage
import AnylWallet.Eth.TxRequestRun
import AnylWallet.Eth.Web3
import AnylWallet.Eth.Web3Sizes
import AnylWallet.FishSupply.DemoShell
import AnylWallet.FishSupply.SawtoothShell
import AnylWallet.Helpers.Divmod128
import AnylWallet.Helpers.Fp2str
import AnylWallet.Helpers.FromstringStrips
import AnylWallet.Helpers.HextobinInverse
import AnylWallet.Helpers.JsmnTokens
import AnylWallet.Helpers.ShiftObjects
import AnylWallet.Sawtooth.ErrorMessages
import AnylWallet.Sawtooth.HeaderFields
import AnylWallet.Tools.EtherscanQuery
import AnylWallet.Zephyr.AccountSync
import AnylWallet.Zephyr.Amounts
import AnylWallet.Zephyr.DecimalPrint
import AnylWallet.Zephyr.Destinations
import AnylWallet.Zephyr.NumberCommands
import AnylWallet.Zephyr.History
import AnylWallet.Zephyr.Nonces
import AnylWallet.Zephyr.ReceiptReply
import AnylWallet.Zephyr.SharedBuffer
import AnylWallet.Zephyr.Starvation
import AnylWallet.Zephyr.TokenIndex
import AnylWallet.Zephyr.UploadThread
import AnylWallet.Zephyr.Verdicts
import AnylWallet.Zephyr.Web3Shell
import AnylWallet.Zephyr.Wire
