import VortexKV.Env

/-!
# Access control

`internal/engine/acl.go`: the users, and which commands and keys a user may name.
-/

namespace VortexKV

structure ACLUser where
  username : Bytes
  password : Bytes := []
  enabled : Bool := true
  isAdmin : Bool := false
  keyPatterns : List Bytes := ["*"]
  readOnly : Bool := false
deriving DecidableEq

abbrev ACLManager := GoMap ACLUser

namespace ACLManager

/-- `NewACLManager`. -/
def new (defaultPassword : Bytes) : ACLManager :=
  (∅ : GoMap ACLUser).insert "default" { username := "default", password := defaultPassword, isAdmin := true }

variable (rt : Runtime) (m : ACLManager)

def orDefault (username : Bytes) : Bytes := if username = [] then "default" else username

def authenticate (username password : Bytes) : Option ACLUser :=
  match m.lookup (orDefault username) with
  | none => none
  | some user => if user.enabled ∧ password = user.password then some user else none

def setUser (user : ACLUser) : ACLManager :=
  m.insert user.username (if user.keyPatterns = [] then { user with keyPatterns := ["*"] } else user)

def deleteUser (username : Bytes) : Bool × ACLManager :=
  if username = lit "default" ∨ username ∉ m then (false, m) else (true, m.erase username)

def matchesAnyPattern (key : Bytes) (patterns : List Bytes) : Bool :=
  patterns.any fun p =>
    let clean := if p.head? = some 126 then p.tail else p
    p = lit "*" || p = lit "~*" || rt.pathMatch clean key = some true ||
      (clean.getLast? = some 42 && clean.dropLast.isPrefixOf key)

def adminCommands : List Bytes := ["FLUSHDB", "FLUSHALL", "CONFIG", "SHUTDOWN", "BGREWRITEAOF"]

def mutatingCommands : List Bytes :=
  ["SET", "SETEX", "SETNX", "MSET", "DEL", "INCR", "INCRBY", "DECR", "DECRBY",
    "LPUSH", "RPUSH", "LPOP", "RPOP", "HSET", "HMSET", "HDEL", "HINCRBY",
    "SADD", "SREM", "ZADD", "ZREM", "ZINCRBY", "VADD", "VDEL", "XADD", "XDEL", "XTRIM", "XGROUP", "XACK",
    "EXPIRE", "EXPIREAT", "SAVE", "BGSAVE"]

/-- `CanExecute`: the reason of a refusal, or `none`. -/
def refusal (username cmdName : Bytes) (keys : List Bytes) : Option Bytes :=
  let username := orDefault username
  match m.lookup username with
  | none => some "account is disabled or does not exist"
  | some user =>
    let cmdUpper := toUpper rt.unicode cmdName
    if !user.enabled then some "account is disabled or does not exist"
    else if !user.isAdmin && cmdUpper ∈ adminCommands then
      some (lit "administrative command '" ++ cmdName ++ lit "' not allowed for user '" ++ username ++ lit "'")
    else if !user.isAdmin && user.readOnly && cmdUpper ∈ mutatingCommands then
      some (lit "mutating command '" ++ cmdName ++ lit "' not allowed for read-only user '" ++ username ++
        lit "'")
    else
      (keys.find? fun key => !matchesAnyPattern rt key user.keyPatterns).map fun key =>
        lit "key '" ++ key ++ lit "' violates allowed namespace pattern(s) for user '" ++ username ++ lit "'"

/-- One token of `ACL SETUSER`. -/
def applyToken (user : ACLUser) (tok : Bytes) : ACLUser :=
  if tok = lit "on" then { user with enabled := true }
  else if tok = lit "off" then { user with enabled := false }
  else if tok.head? = some 62 then { user with password := tok.tail }
  else if tok.head? = some 126 then { user with keyPatterns := [tok.tail] }
  else if tok = lit "admin" then { user with isAdmin := true, readOnly := false }
  else if tok = lit "+@all" ∨ tok = lit "+@write" ∨ tok = lit "readwrite" then
    { user with readOnly := false, isAdmin := false }
  else if tok = lit "+@read" ∨ tok = lit "readonly" then { user with readOnly := true, isAdmin := false }
  else user

/-- The line of a user in `ACL LIST`. -/
def listLine (u : ACLUser) : Bytes :=
  let patterns := (lit " ~").intercalate u.keyPatterns
  lit "user " ++ u.username ++ (if u.enabled then lit " on " else lit " off ") ++
    (if patterns = [] then [] else 126 :: patterns) ++ (if u.readOnly then lit " +@read" else lit " +@all")

end ACLManager

end VortexKV
