import SmartTunnel.Base.Utf8

/-!
# Lines of options

An option of a configuration is a line of words, with quotes and backslashes. The app reads lines with `parseline`
and writes the options it does not know with `openVpnEscape`; `openvpn` reads what was written with `parse_line`,
which also reads the commands of the management interface. `parseline` is an adaption of `parse_line`; both are
loops that take a character at a time, with the state of the word they are in.
-/

namespace SmartTunnel

open Jvm

/-! ## Writing -/

namespace VpnProfile

/-- `replace` of a character. -/
def replace (c : Char) (by' : List Char) (s : List Char) : List Char := s.flatMap fun d => if d = c then by' else [d]

/-- `openVpnEscape`, of a text that is not null. -/
def openVpnEscape (unescaped : List Char) : List Char :=
  let escapedString := replace '\\' ['\\', '\\'] unescaped
  let escapedString := replace '"' ['\\', '"'] escapedString
  let escapedString := replace '\n' ['\\', 'n'] escapedString
  if escapedString = unescaped ∧ ' ' ∉ escapedString ∧ '#' ∉ escapedString ∧ ';' ∉ escapedString ∧
      escapedString ≠ [] ∧ '\'' ∉ escapedString then unescaped
  else ['"'] ++ escapedString ++ ['"']

end VpnProfile

namespace ConfigParser

/-- What `getOptionStrings` writes for an option. -/
def optionLine (optionsline : List (List Char)) : List Char :=
  (optionsline.flatMap fun arg => VpnProfile.openVpnEscape arg ++ [' ']) ++ ['\n']

/-! ## `parseline` -/

inductive Linestate
  | initial
  | readin_single_quote
  | reading_quoted
  | reading_unquoted
  | done
  deriving DecidableEq, Repr

/-- `ConfigParseError`: a backslash before a character that needs none. -/
inductive ConfigParseError
  | badBackslash
  deriving DecidableEq, Repr

/-- `Character.isWhitespace`. -/
def isWhitespace (c : Char) : Bool :=
  let n := c.toNat
  9 ≤ n && n ≤ 13 || 28 ≤ n && n ≤ 32 || n == 0x1680 || 0x2000 ≤ n && n ≤ 0x2006 || 0x2008 ≤ n && n ≤ 0x200A ||
    n == 0x2028 || n == 0x2029 || n == 0x205F || n == 0x3000

def space (c : Char) : Bool := isWhitespace c || c == '\x00'

/-- The variables of the loop; `out` is zero when there is nothing to store. -/
structure Parsing where
  state : Linestate := .initial
  backslash : Bool := false
  out : Char := '\x00'
  currentarg : List Char := []
  parameters : List (List Char) := []
  deriving DecidableEq, Repr

/-- The state that a character leads to, and `out`. A comment ends the loop. -/
def next (inc : Char) (s : Parsing) : Option (Linestate × Char) :=
  match s.state with
  | .initial =>
    if space inc then some (.initial, s.out)
    else if inc = ';' ∨ inc = '#' then none
    else if !s.backslash && inc = '"' then some (.reading_quoted, s.out)
    else if !s.backslash && inc = '\'' then some (.readin_single_quote, s.out)
    else some (.reading_unquoted, inc)
  | .reading_unquoted => if !s.backslash && space inc then some (.done, s.out) else some (.reading_unquoted, inc)
  | .reading_quoted => if !s.backslash && inc = '"' then some (.done, s.out) else some (.reading_quoted, inc)
  | .readin_single_quote => if inc = '\'' then some (.done, s.out) else some (.readin_single_quote, inc)
  | .done => some (.done, s.out)

/-- A word that is done. -/
def finishArg (s : Parsing) : Parsing :=
  if s.state = .done then
    { s with state := .initial, parameters := s.parameters ++ [s.currentarg], currentarg := [], out := '\x00' }
  else s

/-- `out` is not reset when a backslash is read, so the character before it is stored again. -/
def store (s : Parsing) : Parsing := if s.out ≠ '\x00' then { s with currentarg := s.currentarg ++ [s.out] } else s

/-- A round of the loop; `none` is the `break` of a comment. -/
def round (inc : Char) (s : Parsing) : Except ConfigParseError (Option Parsing) :=
  if !s.backslash && inc = '\\' && s.state ≠ .readin_single_quote then .ok (some (store { s with backslash := true }))
  else
    match next inc s with
    | none => .ok none
    | some (state, out) =>
      let s := finishArg { s with state := state, out := out }
      if s.backslash ∧ s.out ≠ '\x00' ∧ ¬ (s.out = '\\' ∨ s.out = '"' ∨ space s.out) then .error .badBackslash
      else .ok (some (store { s with backslash := false }))

def parselineLoop : List Char → Parsing → Except ConfigParseError (List (List Char))
  | [], s => .ok s.parameters
  | c :: cs, s =>
    match round c s with
    | .error e => .error e
    | .ok none => .ok s.parameters
    | .ok (some s') => parselineLoop cs s'

/-- `parseline`: behind its last character the line is read as if a zero came. -/
def parseline (line : List Char) : Except ConfigParseError (List (List Char)) :=
  if line.length = 0 then .ok [] else parselineLoop (line ++ ['\x00']) {}

end ConfigParser

/-! ## `parse_line` -/

namespace OpenVpn

def MAX_PARMS : ℕ := 16

def OPTION_PARM_SIZE : ℕ := 256

inductive LineState
  | STATE_INITIAL
  | STATE_READING_QUOTED_PARM
  | STATE_READING_UNQUOTED_PARM
  | STATE_DONE
  | STATE_READING_SQUOTED_PARM
  deriving DecidableEq, Repr

/-- Why `parse_line` returns no parameters. -/
inductive LineError
  | badBackslash
  | tooLong
  | noClosingQuotation
  | noClosingSingleQuotation
  | residual
  deriving DecidableEq, Repr

/-- `space`, with `isspace` in the locale `C`. -/
def space (c : Byte) : Bool := c == 0 || c == 32 || 9 ≤ c.toNat && c.toNat ≤ 13

/-- The variables of the loop, with the `parm_len` bytes of `parm` and the `ret` parameters of `p`. -/
structure Line where
  state : LineState := .STATE_INITIAL
  backslash : Bool := false
  parm : Bytes := []
  p : List Bytes := []
  deriving DecidableEq, Repr

/-- The state that a byte leads to, and `out`. A comment ends the loop. -/
def next (inc : Byte) (s : Line) : Option (LineState × Byte) :=
  match s.state with
  | .STATE_INITIAL =>
    if space inc then some (.STATE_INITIAL, 0)
    else if inc = 59 ∨ inc = 35 then none
    else if !s.backslash && inc = 34 then some (.STATE_READING_QUOTED_PARM, 0)
    else if !s.backslash && inc = 39 then some (.STATE_READING_SQUOTED_PARM, 0)
    else some (.STATE_READING_UNQUOTED_PARM, inc)
  | .STATE_READING_UNQUOTED_PARM =>
    if !s.backslash && space inc then some (.STATE_DONE, 0) else some (.STATE_READING_UNQUOTED_PARM, inc)
  | .STATE_READING_QUOTED_PARM =>
    if !s.backslash && inc = 34 then some (.STATE_DONE, 0) else some (.STATE_READING_QUOTED_PARM, inc)
  | .STATE_READING_SQUOTED_PARM =>
    if inc = 39 then some (.STATE_DONE, 0) else some (.STATE_READING_SQUOTED_PARM, inc)
  | .STATE_DONE => some (.STATE_DONE, 0)

/-- A parameter that is done. -/
def finishParm (s : Line) : Line :=
  if s.state = .STATE_DONE then { s with state := .STATE_INITIAL, p := s.p ++ [s.parm], parm := [] } else s

/-- The body of the loop, up to its two ways out at the end; `none` is the `break` of a comment. -/
def round (inc : Byte) (s : Line) : Except LineError (Option Line) :=
  if !s.backslash && inc = 92 && s.state ≠ .STATE_READING_SQUOTED_PARM then .ok (some { s with backslash := true })
  else
    match next inc s with
    | none => .ok none
    | some (state, out) =>
      let s := finishParm { s with state := state }
      if s.backslash ∧ out ≠ 0 ∧ ¬ (out = 92 ∨ out = 34 ∨ space out) then .error .badBackslash
      else if out = 0 then .ok (some { s with backslash := false })
      else if OPTION_PARM_SIZE ≤ s.parm.length then .error .tooLong
      else .ok (some { s with backslash := false, parm := s.parm ++ [out] })

/-- Behind the loop. -/
def finish (s : Line) : Except LineError (List Bytes) :=
  match s.state with
  | .STATE_READING_QUOTED_PARM => .error .noClosingQuotation
  | .STATE_READING_SQUOTED_PARM => .error .noClosingSingleQuotation
  | .STATE_INITIAL => .ok s.p
  | _ => .error .residual

def parseLoop (n : ℕ) : Bytes → Line → Except LineError (List Bytes)
  | [], s => finish s
  | c :: cs, s =>
    match round c s with
    | .error e => .error e
    | .ok none => finish s
    | .ok (some s') => if n ≤ s'.p.length ∨ c = 0 then finish s' else parseLoop n cs s'

/-- `parse_line`, of the bytes up to the zero behind them. -/
def parse_line (line : Bytes) (n : ℕ) : Except LineError (List Bytes) := parseLoop n (line ++ [0]) {}

end OpenVpn

/-! ## Passwords -/

namespace OpenVpnManagementThread

/-- A user and a password; either may be null. -/
structure Credentials where
  username : Option (List Char) := none
  password : Option (List Char) := none
  deriving DecidableEq, Repr

/-- What `processPWCommand` asks the profile for. `mCurrentProxyConnection` may be null. -/
structure Profile where
  passwordPrivateKey : Option (List Char) := none
  auth : Credentials := {}
  mCurrentProxyConnection : Option Credentials := none
  deriving DecidableEq, Repr

def usernameCommand (needed username : List Char) : List Char :=
  "username '".toList ++ needed ++ "' ".toList ++ VpnProfile.openVpnEscape username ++ ['\n']

def passwordCommand (needed pw : List Char) : List Char :=
  "password '".toList ++ needed ++ "' ".toList ++ VpnProfile.openVpnEscape pw ++ ['\n']

/-- The text between the first two quotes; without them `substring` raises, which is caught. -/
def needed (argument : List Char) : Option (List Char) :=
  match argument.dropWhile (· ≠ '\'') with
  | _ :: rest => if '\'' ∈ rest then some (rest.takeWhile (· ≠ '\'')) else none
  | [] => none

/-- The user and the password for what is needed. -/
def Profile.credentials (profile : Profile) (needed : List Char) : Credentials :=
  if needed = "Private Key".toList then ⟨none, profile.passwordPrivateKey⟩
  else if needed = "Auth".toList then profile.auth
  else if needed = "HTTP Proxy".toList then profile.mCurrentProxyConnection.getD {}
  else {}

/-- The commands that `processPWCommand` sends. -/
def processPWCommand (profile : Profile) (argument : List Char) : List (List Char) :=
  if "Auth-Token:".toList.isPrefixOf argument then []
  else match needed argument with
    | none => []
    | some needed =>
      if "Verification Failed".toList.isPrefixOf argument then []
      else match (profile.credentials needed).password with
        | none => []
        | some pw =>
          ((profile.credentials needed).username.map (usernameCommand needed)).toList ++ [passwordCommand needed pw]

end OpenVpnManagementThread

end SmartTunnel
