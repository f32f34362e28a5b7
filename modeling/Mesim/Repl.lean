import Mesim.TextCodec
import Mathlib.Algebra.Order.Ring.Rat
import Mathlib.Data.NNRat.Defs

/-!
The command line of a node.
A line is cut into at most three words, and the first one names the command. The
loop checks the inactivity timeout before it shows its prompt, asks for the
passphrase if it has run out, and then waits for a line however long that takes.
-/
namespace Mesim.Repl

open Octets TextCodec

section Commands

/-- What `str.split()` splits at. -/
def isSpace (c : Char) : Bool :=
  (9 ≤ c.toNat && c.toNat ≤ 13) || (28 ≤ c.toNat && c.toNat ≤ 32) || c.toNat == 0x85 ||
    c.toNat == 0xa0 || c.toNat == 0x1680 || (0x2000 ≤ c.toNat && c.toNat ≤ 0x200a) ||
    c.toNat == 0x2028 || c.toNat == 0x2029 || c.toNat == 0x202f || c.toNat == 0x205f ||
    c.toNat == 0x3000

def strip (s : List Char) : List Char :=
  ((s.dropWhile isSpace).reverse.dropWhile isSpace).reverse

/-- `split(None, maxsplit)`. -/
def split : ℕ → List Char → List (List Char)
  | 0, s =>
    let rest := s.dropWhile isSpace
    if rest.isEmpty then [] else [rest]
  | maxsplit + 1, s =>
    let rest := s.dropWhile isSpace
    if rest.isEmpty then []
    else rest.takeWhile (fun c => !isSpace c) ::
      split maxsplit (rest.dropWhile fun c => !isSpace c)

inductive Command where
  | quit
  | peers
  | routes
  | history (peerId : Option String)
  | sendUsage
  | send (peerId message : String)
  | whoami
  | help
  | unknown
  deriving DecidableEq

/-- The command of a line; a blank one has none. Only ASCII letters have the letters of these
names in lower case. -/
def command (line : String) : Option Command :=
  match (split 2 (strip line.toList)).map String.ofList with
  | [] => none
  | cmd :: args =>
    let cmd := String.ofList (cmd.toList.map Char.toLower)
    if ["quit", "exit", "q"].contains cmd then some .quit
    else if cmd = "peers" then some .peers
    else if cmd = "routes" then some .routes
    else if cmd = "history" then some (.history args.head?)
    else if cmd = "send" then
      match args with
      | [peerId, message] => some (.send peerId message)
      | _ => some .sendUsage
    else if cmd = "whoami" then some .whoami
    else if ["help", "?"].contains cmd then some .help
    else some .unknown

example : command " send  bravo  on my way \n" = some (.send "bravo" "on my way") := by
  decide +kernel

end Commands

section Loop

variable (hmacSha256 : Bytes → Bytes → Fixed 32)

structure MesimCLI where
  passphraseHmac : Option (Fixed 32)
  lockTimeout : Option ℤ
  lastActivity : ℚ
  running : Bool

def hashPassphrase (passphrase : String) : Fixed 32 :=
  hmacSha256 (encodeUtf8 "mesim-lock-v1") (encodeUtf8 passphrase)

/-- The command line at this time, after start(). -/
def MesimCLI.init (now : ℚ) (lockTimeout : Option ℤ) (passphrase : Option String) : MesimCLI where
  passphraseHmac := passphrase.map (hashPassphrase hmacSha256)
  lockTimeout := lockTimeout
  lastActivity := now
  running := true

def MesimCLI.isLocked (cli : MesimCLI) (now : ℚ) : Bool :=
  match cli.lockTimeout, cli.passphraseHmac with
  | some lockTimeout, some _ => decide ((now - cli.lastActivity) / 60 ≥ lockTimeout)
  | _, _ => false

/-- Where run_repl() stands: before its check, in getpass(), in readline(), or past its loop. -/
inductive Phase where
  | turning
  | unlocking
  | reading
  | ended
  deriving DecidableEq

inductive Happening where
  | started
  | entered (passphrase : String)
  | executed (command : Command)
  deriving DecidableEq

structure Entry where
  time : ℚ
  happening : Happening
  deriving DecidableEq

/-- The loop, and what has happened in it so far. -/
structure Session where
  cli : MesimCLI
  phase : Phase
  clock : ℚ
  log : List Entry

inductive Input where
  | turn
  | passphrase (entered : String)
  | line (text : String) (raised : Bool)
  | interrupt
  | stop

/-- The next thing to happen, and how long it takes to. -/
structure Label where
  wait : ℚ≥0
  input : Input

def Session.start (now : ℚ) (lockTimeout : Option ℤ) (passphrase : Option String) : Session where
  cli := .init hmacSha256 now lockTimeout passphrase
  phase := .turning
  clock := now
  log := [⟨now, .started⟩]

/-- The check at the top of the loop. -/
def turn (cli : MesimCLI) (now : ℚ) : Phase :=
  if !cli.running then .ended
  else if cli.isLocked now then .unlocking
  else .reading

/-- handle_command(). A blank line changes nothing; a command that raises ends the loop. -/
def handleCommand (s : Session) (text : String) (raised : Bool) : Session :=
  match command text with
  | none => { s with phase := .turning }
  | some cmd =>
    { s with
      cli := { s.cli with lastActivity := s.clock }
      phase := if cmd = .quit ∨ raised = true then .ended else .turning
      log := s.log ++ [⟨s.clock, .executed cmd⟩] }

/-- One reading of getpass(). -/
def enter (s : Session) (entered : String) : Session :=
  let log := s.log ++ [⟨s.clock, .entered entered⟩]
  if some (hashPassphrase hmacSha256 entered) = s.cli.passphraseHmac then
    { s with cli := { s.cli with lastActivity := s.clock }, phase := .reading, log := log }
  else { s with log := log }

/-- An input that the loop does not wait for only lets the time pass. -/
def step (s : Session) (l : Label) : Session :=
  let s := { s with clock := s.clock + l.wait }
  match l.input with
  | .turn => if s.phase = .turning then { s with phase := turn s.cli s.clock } else s
  | .passphrase entered => if s.phase = .unlocking then enter hmacSha256 s entered else s
  | .line text raised =>
    if s.phase = .reading then
      if text = "" then { s with phase := .ended } else handleCommand s text raised
    else s
  | .interrupt => { s with phase := .ended }
  | .stop => { s with cli := { s.cli with running := false } }

end Loop

end Mesim.Repl
