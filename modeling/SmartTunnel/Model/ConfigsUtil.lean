import SmartTunnel.Base.Stream

/-!
# `ConfigsUtil.exportConfig` and `importConfig`

A config file is the name of the app and the type of the config, each behind its length in
one byte, and the encrypted JSON. `importConfig` reads the two fields with one call each and
the rest with a loop, and posts what it found to a callback.

The charset and the cipher are the platform's: `Platform`.
-/

namespace SmartTunnel

open Jvm

/-- What the platform does with strings (UTF-8, also its default charset) and with AES under
the key of `Util`. A cipher that raises is `none`. -/
structure Platform where
  getBytes : String → Bytes
  newString : Bytes → String
  encryptBytes : Bytes → Option Bytes
  decryptBytes : Bytes → Option Bytes

namespace Util

variable (P : Platform)

/-- `Util.encrypt`: null if the cipher raises. -/
def encrypt (value : String) : Option Bytes := P.encryptBytes (P.getBytes value)

/-- `Util.decrypt`: null if the cipher raises. -/
def decrypt (data : Bytes) : Option String := (P.decryptBytes data).map P.newString

end Util

namespace ConfigsUtil

def appName : String := "SmartTunnel"

/-- What the callback of `importConfig` is told. -/
inductive Callback
  /-- `onComplete` with the type and the JSON, which may be null. -/
  | onComplete (configType : String) (configJson : Option String)
  /-- `onException` with a `ConfigNotSupportException`. -/
  | notSupported
  /-- `onException` with the `IOException` of the stream. -/
  | ioException
  deriving DecidableEq, Repr

variable (P : Platform)

/-- The bytes that `exportConfig` writes, unless an exception makes it write nothing. -/
def exportConfig (configJson configType : String) : Option Bytes := do
  let configTypeBytes := P.getBytes configType
  let appNameBytes := P.getBytes appName
  let typeLength : Byte := BitVec.ofNat 8 configTypeBytes.length
  let appNameLength : Byte := BitVec.ofNat 8 appNameBytes.length
  let encrypted ← Util.encrypt P configJson
  return [appNameLength] ++ appNameBytes ++ [typeLength] ++ configTypeBytes ++ encrypted

/-- A length and an array of that many bytes, filled by one call of `read`. -/
def readField : Java InputStream Bytes := do
  let length ← InputStream.readMasked
  InputStream.fill length

/-- The stream, and the callbacks posted so far. -/
structure Import where
  dis : InputStream
  posted : List Callback := []

def onStream {α : Type} (x : Java InputStream α) : Java Import α :=
  Java.onField Import.dis (fun s i => { i with dis := s }) x

def post (callback : Callback) : Java Import Unit :=
  modify fun i => { i with posted := i.posted ++ [callback] }

/-- The body of the `try` of `importConfig`. Every round of the loop takes a byte at least, so
the length of the stream bounds them. -/
def importBody : Java Import Unit := do
  let appNameBytes ← onStream readField
  -- a wrong name is reported, and the import goes on
  if P.newString appNameBytes ≠ appName then post .notSupported
  let configTypeBytes ← onStream readField
  let configType := P.newString configTypeBytes
  let encrypted ← onStream (InputStream.readAll (1024 * 4) ((← get).dis.content.length + 1))
  let configJson := Util.decrypt P encrypted
  post (.onComplete configType configJson)

/-- The callbacks of `importConfig`, in order. -/
def importConfig (dis : InputStream) : List Callback :=
  match Java.exec (importBody P) { dis := dis } with
  | (.error .ioException, i) => i.posted ++ [.ioException]
  | (_, i) => i.posted

end ConfigsUtil

end SmartTunnel
