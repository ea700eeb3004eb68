import DataCollectionLab.Lib.Dict
import DataCollectionLab.Lib.Runs

/-!
The recipient keys of a project. Adding and revoking a key are one transaction each, and no row stands for the set
of keys: what a transaction has read of it may be over when it writes.
-/

namespace DataCollectionLab.Projects

open Lib

inductive SecurityMode where
  | standard
  | fieldLevel
  | projectE2e
deriving DecidableEq

inductive KeyRole where
  | primary
  | backup
  | recovery

structure Project where
  id : String
  securityMode : SecurityMode
  archivedAt : Option ℕ := none

structure ProjectKey where
  id : String
  projectId : String
  publicKey : List UInt8
  keyRole : KeyRole
  label : String
  createdAt : ℕ
  revokedAt : Option ℕ := none

structure ProjectKeyCreate where
  publicKey : List UInt8
  role : KeyRole
  label : String

inductive KeyRegistrationFailure where
  | projectArchived
  | degeneratePublicKey
  | duplicatePublicKey
  | testOnlyKey
  | keyNotFound
  | lastActiveKey
deriving DecidableEq

/-- What the server runs in: its setting, Python's view of a character, and the X25519 exchange. -/
structure Environment where
  environment : String
  exchanges : List UInt8 → Bool
  upper : String → String
  isSpace : Char → Bool
  isWord : Char → Bool

section PublishedTestKeys

def publicKeyBytes : ℕ := 32

def publishedTestPublicKeys : List String :=
  ["40fd23ed9bf913bdaf563c3ad2fbe16f0a19103744fd2a90ecef2a5c51c90358",
    "ba0962cda30119a751bd658556a1992519bee464a21cac30d4b29393b4997043",
    "d29c2a61edde8a6f47eba09a3bc688ad85ff2791e238d132709239dcbf6d1f07"]

def developmentEnvironment : String := "development"

def hexChar (digit : ℕ) : Char := "0123456789abcdef".toList.getD digit '0'

def hex (bytes : List UInt8) : String :=
  String.ofList (bytes.flatMap fun byte => [hexChar (byte.toNat / 16), hexChar (byte.toNat % 16)])

def isPublishedTestKey (publicKey : List UInt8) : Bool := publishedTestPublicKeys.contains (hex publicKey)

variable (env : Environment)

/-- `ONLY\b` -/
def onlyAt (rest : List Char) : Bool :=
  "ONLY".toList.isPrefixOf rest && !(rest.drop 4).head?.any env.isWord

/-- `TEST[\s_-]?ONLY\b` -/
def testOnlyAt (rest : List Char) : Bool :=
  "TEST".toList.isPrefixOf rest &&
    match rest.drop 4 with
    | [] => false
    | c :: after => onlyAt env (c :: after) || ((env.isSpace c || c == '_' || c == '-') && onlyAt env after)

/-- The pattern behind `\b`, searched for from left to right. -/
def searchTestOnly : Option Char → List Char → Bool
  | _, [] => false
  | before, c :: rest => (!before.any env.isWord && testOnlyAt env (c :: rest)) || searchTestOnly (some c) rest

def claimsTestOnly (label : String) : Bool := searchTestOnly env none (env.upper label).toList

/-- `refusal_for_test_only_key` says something. -/
def refusalForTestOnlyKey (publicKey : List UInt8) (label : String) : Bool :=
  env.environment != developmentEnvironment && (isPublishedTestKey publicKey || claimsTestOnly env label)

def isUsableRecipientKey (publicKey : List UInt8) : Bool :=
  publicKey.length == publicKeyBytes && env.exchanges publicKey

end PublishedTestKeys

inductive Tx where
  /-- `add_project_key`, before it looks for a duplicate. -/
  | adding (request : ProjectKeyCreate)
  | checked (request : ProjectKeyCreate)
  /-- The row is written and not committed. -/
  | inserted (key : ProjectKey)
  /-- `revoke_project_key`, before it reads the key. -/
  | revoking (keyId : String)
  | found (keyId : String)
  | counted (keyId : String)
  | updated (keyId : String) (revokedAt : ℕ)
  /-- The key was revoked already. -/
  | unchanged

structure Server where
  project : Project
  keys : List ProjectKey := []
  txs : AList (fun _ : ℕ => Tx) := ∅

structure Draw where
  id : String := ""
  now : ℕ := 0

inductive Action where
  | add (t : ℕ) (request : ProjectKeyCreate)
  | revoke (t : ℕ) (keyId : String)
  | next (t : ℕ) (draw : Draw)
  | commit (t : ℕ)
  | abort (t : ℕ)

namespace Tx

def brings : Tx → Option (List UInt8)
  | .checked request => some request.publicKey
  | .inserted key => some key.publicKey
  | _ => none

def retires : Tx → Option String
  | .counted keyId | .updated keyId _ => some keyId
  | _ => none

def insertedId : Tx → Option String
  | .inserted key => some key.id
  | _ => none

def updatedId : Tx → Option String
  | .updated keyId _ => some keyId
  | _ => none

def names : Tx → Option String
  | .found keyId | .counted keyId | .updated keyId _ => some keyId
  | _ => none

end Tx

namespace Server

variable (env : Environment) (s : Server)

def isActive (key : ProjectKey) : Bool := key.projectId == s.project.id && key.revokedAt.isNone

def active : List ProjectKey := s.keys.filter s.isActive

def remaining (keyId : String) : List ProjectKey := s.active.filter (·.id != keyId)

def getKey (keyId : String) : Option ProjectKey :=
  s.keys.find? fun key => key.id == keyId && key.projectId == s.project.id

def readKey (keyId : String) : Except KeyRegistrationFailure ProjectKey :=
  match s.getKey keyId with
  | none => .error .keyNotFound
  | some key => .ok key

def duplicates (publicKey : List UInt8) : List ProjectKey := s.active.filter (·.publicKey == publicKey)

/-- `add_project_key`, up to its first statement. -/
def refusesAdd (request : ProjectKeyCreate) : Option KeyRegistrationFailure :=
  if s.project.archivedAt.isSome then some .projectArchived
  else if !isUsableRecipientKey env request.publicKey then some .degeneratePublicKey
  else none

def refusesChecked (request : ProjectKeyCreate) : Option KeyRegistrationFailure :=
  if s.duplicates request.publicKey ≠ [] then some .duplicatePublicKey
  else if refusalForTestOnlyKey env request.publicKey request.label then some .testOnlyKey
  else none

def refusesRevoke (keyId : String) : Option KeyRegistrationFailure :=
  if s.project.securityMode ≠ .standard ∧ s.remaining keyId = [] then some .lastActiveKey else none

def newKey (request : ProjectKeyCreate) (draw : Draw) : ProjectKey where
  id := draw.id
  projectId := s.project.id
  publicKey := request.publicKey
  keyRole := request.role
  label := request.label
  createdAt := draw.now

def goes (t : ℕ) (tx : Tx) : Server := { s with txs := s.txs.insert t tx }

def ends (t : ℕ) : Server := { s with txs := s.txs.erase t }

/-- The next statement of `t`. It waits for a row that another transaction has written. -/
def exec (t : ℕ) (draw : Draw) : Tx → Option Server
  | .adding request =>
    some (match s.refusesChecked env request with
      | some _ => s.ends t
      | none => s.goes t (.checked request))
  | .checked request =>
    if Others (fun other => other.insertedId ≠ some draw.id) t s.txs then
      if ∃ key ∈ s.keys, key.id = draw.id then some (s.ends t)
      else some (s.goes t (.inserted (s.newKey request draw)))
    else none
  | .revoking keyId =>
    some (match s.readKey keyId with
      | .error _ => s.ends t
      | .ok key => s.goes t (if key.revokedAt.isSome then .unchanged else .found keyId))
  | .found keyId =>
    some (match s.refusesRevoke keyId with
      | some _ => s.ends t
      | none => s.goes t (.counted keyId))
  | .counted keyId =>
    if Others (fun other => other.updatedId ≠ some keyId) t s.txs then some (s.goes t (.updated keyId draw.now))
    else none
  | .inserted _ | .updated _ _ | .unchanged => none

def retire (keyId : String) (revokedAt : ℕ) (key : ProjectKey) : ProjectKey :=
  if key.id = keyId then { key with revokedAt := some revokedAt } else key

def publish (t : ℕ) : Tx → Option Server
  | .inserted key => some { s.ends t with keys := s.keys ++ [key] }
  | .updated keyId revokedAt => some { s.ends t with keys := s.keys.map (retire keyId revokedAt) }
  | .unchanged => some (s.ends t)
  | _ => none

def step : Action → Option Server
  | .add t request =>
    if s.txs.lookup t = none then
      some (match s.refusesAdd env request with
        | some _ => s
        | none => s.goes t (.adding request))
    else none
  | .revoke t keyId => if s.txs.lookup t = none then some (s.goes t (.revoking keyId)) else none
  | .next t draw => (s.txs.lookup t).bind (s.exec env t draw)
  | .commit t => (s.txs.lookup t).bind (s.publish t)
  | .abort t => some (s.ends t)

end Server

end DataCollectionLab.Projects
