import Outbox.Digits
import Outbox.Blob.Texts
import Outbox.Text.Count
import Outbox.Text.Ip
import Outbox.Text.Lossy

/-!
Addresses of databases: what a URL must look like to name one, and what is wrong with it otherwise.
-/

namespace Outbox.Sql

inductive AddressError where
  /-- There is no scheme. -/
  | relative
  | emptyHost
  | badHost
  | badVersion6
  | badPort
  /-- Bytes that are not well-formed UTF-8, from `start` on; without a length they end too early. -/
  | badText (start : Nat) (length : Option Nat)
  | badCount (e : CountError)
  | badIp
  | badSslMode (mode : String)
deriving DecidableEq

namespace AddressError

def message : AddressError → String
  | relative => "relative URL without a base"
  | emptyHost => "empty host"
  | badHost => "invalid domain character"
  | badVersion6 => "invalid IPv6 address"
  | badPort => "invalid port number"
  | badText start (some n) =>
    "invalid utf-8 sequence of " ++ toString n ++ " bytes from index " ++ toString start
  | badText start none => "incomplete utf-8 byte sequence from index " ++ toString start
  | badCount e => e.message
  | badIp => "invalid IP address syntax"
  | badSslMode mode => "unknown value \"" ++ mode ++ "\" for `ssl_mode`"

def ofSettings (text : String) : String := "error with configuration: " ++ text

def chain (e : AddressError) : List String :=
  match e with
  | badSslMode _ => [ofSettings (ofSettings e.message), ofSettings e.message, e.message]
  | _ => [ofSettings e.message, e.message]

end AddressError

structure Address where
  /-- The directory of a local socket, in place of a host. -/
  socket : Option String := none
  port : Nat := 5432
deriving DecidableEq

namespace Address

/-! ## The parts of a URL -/

/-- White space around the URL does not count, nor do line ends and tabs in it. -/
def clean (url : String) : List Char :=
  let cs := url.toList.dropWhile (· ≤ ' ')
  let cs := (cs.reverse.dropWhile (· ≤ ' ')).reverse
  cs.filter fun c => c ≠ '\t' && c ≠ '\n' && c ≠ '\r'

def isSchemeChar (c : Char) : Bool := c.isAlphanum || c = '+' || c = '-' || c = '.'

def scheme? : List Char → Option (String × List Char)
  | [] => none
  | c :: cs =>
    let name := (c :: cs).takeWhile isSchemeChar
    match (c :: cs).drop name.length with
    | ':' :: rest => if c.isAlpha then some (String.ofList (name.map Char.toLower), rest) else none
    | _ => none

/-- Schemes of the web, in which a backslash is as good as a slash. -/
def isSpecial (scheme : String) : Bool := ["http", "https", "ws", "wss", "ftp"].contains scheme

def isSlash (special : Bool) (c : Char) : Bool := c = '/' || (special && c = '\\')

def isEnd (special : Bool) (c : Char) : Bool := isSlash special c || c = '?' || c = '#'

/-- The host, up to a port or the end; inside brackets colons belong to it. -/
def splitHost (special inside : Bool) : List Char → List Char × List Char
  | [] => ([], [])
  | c :: cs =>
    if (c = ':' && !inside) || isEnd special c then ([], c :: cs)
    else
      let (host, rest) := splitHost special (if c = '[' then true else if c = ']' then false else inside) cs
      (c :: host, rest)

def hostStops : List Char :=
  ['\x00', '\t', '\n', '\r', ' ', '#', '/', ':', '<', '>', '?', '@', '[', '\\', ']', '^', '|']

/-- Hosts of the web are not looked into. -/
def checkHost (special : Bool) (host : List Char) : Except AddressError Unit :=
  if special && host.isEmpty then .error .emptyHost
  else if host.head? = some '[' then
    if host.getLast? = some ']' && Ip.isVersion6 (String.ofList host.tail.dropLast) then .ok ()
    else .error .badVersion6
  else if !special && host.any hostStops.contains then .error .badHost
  else .ok ()

def readPort (cs : List Char) : Except AddressError (Option Nat × List Char) :=
  let ds := cs.takeWhile Char.isDigit
  let rest := cs.drop ds.length
  let port := Digits.ofChars 10 ds
  if Nat.pow 2 16 ≤ port || rest.head?.any (fun c => !isEnd true c) then .error .badPort
  else .ok (if ds.isEmpty then none else some port, rest)

structure Authority where
  user : List Char := []
  password : List Char := []
  host : List Char := []
  port : Option Nat := none

/-- Reads the part between the slashes and the path. Up to the last at sign it names the user. -/
def readAuthority (special : Bool) (cs : List Char) : Except AddressError (Authority × List Char) := do
  let whole := cs.takeWhile fun c => !isEnd special c
  let behind := (whole.reverse.takeWhile (· ≠ '@')).length
  let credentials := whole.take (whole.length - behind - 1)
  let cs := if whole.contains '@' then cs.drop (credentials.length + 1) else cs
  if whole = ['@'] && !cs.isEmpty then throw .emptyHost
  let user := credentials.takeWhile (· ≠ ':')
  let password := credentials.drop (user.length + 1)
  let (host, rest) := splitHost special false cs
  checkHost special host
  if host.isEmpty && rest.head? = some ':' then throw .emptyHost
  let (port, rest) ← match rest with
    | ':' :: rest => readPort rest
    | _ => pure (none, rest)
  if host.isEmpty && !(user.isEmpty && password.isEmpty) then throw .emptyHost
  return ({ user, password, host, port }, rest)

/-- The two forms of an authority, or none. -/
def authority (scheme : String) (cs : List Char) : Except AddressError (Authority × List Char) :=
  if isSpecial scheme then readAuthority true (cs.dropWhile (isSlash true))
  else
    match scheme, cs with
    | "file", _ => .ok ({}, cs)
    | _, '/' :: '/' :: rest => readAuthority false rest
    | _, _ => .ok ({}, cs)

/-! ## Escapes -/

def unescape : List UInt8 → List UInt8
  | b :: x :: y :: rest =>
    match Digits.ofChar? (Char.ofNat x.toNat), Digits.ofChar? (Char.ofNat y.toNat) with
    | some m, some n =>
      if b = '%'.toUInt8 then UInt8.ofNat (16 * m + n) :: unescape rest
      else b :: unescape (x :: y :: rest)
    | _, _ => b :: unescape (x :: y :: rest)
  | bs => bs

def bytesOf (cs : List Char) : List UInt8 := unescape (Blob.utf8 (String.ofList cs))

def checkText (bytes : List UInt8) : Except AddressError Unit :=
  match Lossy.fault? 0 bytes with
  | some (start, length) => .error (.badText start length)
  | none => .ok ()

/-! ## Parameters -/

def pairs (query : List Char) : List (String × String) :=
  let text (s : String) : String :=
    lossyText (bytesOf (s.toList.map fun c => if c = '+' then ' ' else c))
  ((String.ofList query).splitOn "&").filterMap fun s =>
    match s.splitOn "=" with
    | [] => none
    | name :: values => if s = "" then none else some (text name, text (String.intercalate "=" values))

def sslModes : List String := ["disable", "allow", "prefer", "require", "verify-ca", "verify-full"]

def count (limit : Nat) (s : String) : Except AddressError Nat := (readCount limit s).mapError .badCount

def isSocket (host : String) : Bool := host.toList.head? = some '/'

/-- Unknown parameters are passed over. -/
def withParameter (a : Address) (p : String × String) : Except AddressError Address :=
  match p with
  | ("sslmode", mode) | ("ssl-mode", mode) =>
    if sslModes.contains (String.ofList (mode.toList.map Char.toLower)) then .ok a
    else .error (.badSslMode mode)
  | ("statement-cache-capacity", n) => (count (Nat.pow 2 64) n).map fun _ => a
  | ("port", n) => (count (Nat.pow 2 16) n).map fun port => { a with port }
  | ("hostaddr", ip) => if Ip.isVersion4 ip || Ip.isVersion6 ip then .ok a else .error .badIp
  | ("host", host) => .ok (if isSocket host then { a with socket := some host } else a)
  | _ => .ok a

/-! ## URLs -/

/-- Checks the parts from the left to the right. -/
def ofUrl (url : String) : Except AddressError Address := do
  let some (scheme, cs) := scheme? (clean url) | throw .relative
  let (authority, rest) ← authority scheme cs
  let path := rest.takeWhile fun c => c ≠ '?' && c ≠ '#'
  let query := match rest.drop path.length with
    | '?' :: query => query.takeWhile (· ≠ '#')
    | _ => []
  let host := bytesOf authority.host
  let isLocal := host.head? = some '/'.toUInt8
  if isLocal then checkText host
  checkText (bytesOf authority.user)
  checkText (bytesOf authority.password)
  checkText (bytesOf (path.dropWhile (· = '/')))
  (pairs query).foldlM withParameter {
    socket := if isLocal then some (lossyText host) else none
    port := authority.port.getD 5432 }

end Address

/-- Why no connection comes about: there is no such socket, or nobody listens. -/
def Address.silence (a : Address) : List String :=
  match a.socket with
  | some _ =>
    ["error communicating with database: No such file or directory (os error 2)",
      "No such file or directory (os error 2)"]
  | none => ["pool timed out while waiting for an open connection"]

end Outbox.Sql
