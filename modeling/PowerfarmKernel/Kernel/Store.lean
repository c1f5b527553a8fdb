import PowerfarmKernel.Kernel.Types

/-!
# The store protocol

The kernel and the services are written against a protocol class, `Store` in
`kernel/commit.py` extended by `Ledger` in `ledger/base.py`; the in-memory ledger and
the PostgreSQL adapter both implement it. Its methods are the operations
`PowerfarmKernel.LedgerOp`, and code written against it is a
`PowerfarmKernel.LedgerM` program: one definition, run by either adapter, alone or
interleaved with other clients.
-/

namespace PowerfarmKernel

/-- A registered name, as `ledger/base.py` records it. -/
structure RegistryEntry where
  hash : Hash
  kind : String
  name : String
  version : ℤ
  bornAt : Hash
  constitutional : Bool
  definition : CanonValue

/-- A content-addressed object. -/
structure ObjectRecord where
  hash : Hash
  canon : Bytes
  kind : String
deriving DecidableEq

/-- **The methods of the store protocol.** -/
inductive LedgerOp where
  | historyCut
  | registered (kind name : String) (cut : Cut)
  | hasObject (objectHash : Hash)
  | hasAct (actHash : Hash)
  | putObject (objectHash : Hash) (canon : Bytes) (kind : String)
  | objectCanon (objectHash : Hash)
  | commitAct (act : Act) (canon : Bytes) (commandType : String)
  | getAct (actHash : Hash)
  | getActsForCommand (commandHash : Hash)
  | getObject (objectHash : Hash)
  | isClosedCut (cut : Cut)
  | getIdentity (identityHash : Hash) (cut : Cut)
  | registryEntries (kind : Option String) (cut : Cut)
  | resolvePrincipal (issuer subject : String)
  | linkPrincipal (issuer subject : String) (identityHash linkedAct : Hash)
  | revokePrincipal (issuer subject : String) (unlinkedAct : Hash)

namespace LedgerOp

/-- What a method answers when it does not raise. -/
def Ret : LedgerOp → Type
  | historyCut => Cut
  | registered _ _ _ => Bool
  | hasObject _ => Bool
  | hasAct _ => Bool
  | putObject _ _ _ => Unit
  | objectCanon _ => Option Bytes
  | commitAct _ _ _ => Act
  | getAct _ => Option Act
  | getActsForCommand _ => List Act
  | getObject _ => Option ObjectRecord
  | isClosedCut _ => Bool
  | getIdentity _ _ => Option Identity
  | registryEntries _ _ => List RegistryEntry
  | resolvePrincipal _ _ => Option Hash
  | linkPrincipal _ _ _ _ => Unit
  | revokePrincipal _ _ _ => Unit

/-- A method that writes nothing. -/
def IsRead : LedgerOp → Prop
  | putObject _ _ _ => False
  | commitAct _ _ _ => False
  | linkPrincipal _ _ _ _ => False
  | revokePrincipal _ _ _ => False
  | _ => True

/-- A method the gate reads by. -/
def IsGateRead : LedgerOp → Prop
  | historyCut => True
  | registered _ _ _ => True
  | hasObject _ => True
  | hasAct _ => True
  | objectCanon _ => True
  | getAct _ => True
  | getActsForCommand _ => True
  | _ => False

theorem IsGateRead.isRead {o : LedgerOp} (h : o.IsGateRead) : o.IsRead := by
  cases o <;> first | exact h | trivial

/-- A method that admits no Act and touches no principal binding. -/
def IsPlain : LedgerOp → Prop
  | commitAct _ _ _ => False
  | linkPrincipal _ _ _ _ => False
  | revokePrincipal _ _ _ => False
  | _ => True

theorem IsRead.isPlain {o : LedgerOp} (h : o.IsRead) : o.IsPlain := by
  cases o <;> first | exact h | trivial

end LedgerOp

/-- **Code written against the store protocol.** -/
abbrev LedgerM (α : Type) : Type := Prog LedgerOp.Ret Raised α

namespace LedgerM

def historyCut : LedgerM Cut := Prog.call LedgerOp.historyCut

def registered (kind name : String) (cut : Cut) : LedgerM Bool :=
  Prog.call (LedgerOp.registered kind name cut)

def hasObject (objectHash : Hash) : LedgerM Bool := Prog.call (LedgerOp.hasObject objectHash)

def hasAct (actHash : Hash) : LedgerM Bool := Prog.call (LedgerOp.hasAct actHash)

def putObject (objectHash : Hash) (canon : Bytes) (kind : String) : LedgerM Unit :=
  Prog.call (LedgerOp.putObject objectHash canon kind)

def objectCanon (objectHash : Hash) : LedgerM (Option Bytes) :=
  Prog.call (LedgerOp.objectCanon objectHash)

def commitAct (act : Act) (canon : Bytes) (commandType : String) : LedgerM Act :=
  Prog.call (LedgerOp.commitAct act canon commandType)

def getAct (actHash : Hash) : LedgerM (Option Act) := Prog.call (LedgerOp.getAct actHash)

def getActsForCommand (commandHash : Hash) : LedgerM (List Act) :=
  Prog.call (LedgerOp.getActsForCommand commandHash)

def isClosedCut (cut : Cut) : LedgerM Bool := Prog.call (LedgerOp.isClosedCut cut)

def getIdentity (identityHash : Hash) (cut : Cut) : LedgerM (Option Identity) :=
  Prog.call (LedgerOp.getIdentity identityHash cut)

def registryEntries (kind : Option String) (cut : Cut) : LedgerM (List RegistryEntry) :=
  Prog.call (LedgerOp.registryEntries kind cut)

def resolvePrincipal (issuer subject : String) : LedgerM (Option Hash) :=
  Prog.call (LedgerOp.resolvePrincipal issuer subject)

def linkPrincipal (issuer subject : String) (identityHash linkedAct : Hash) : LedgerM Unit :=
  Prog.call (LedgerOp.linkPrincipal issuer subject identityHash linkedAct)

def revokePrincipal (issuer subject : String) (unlinkedAct : Hash) : LedgerM Unit :=
  Prog.call (LedgerOp.revokePrincipal issuer subject unlinkedAct)

end LedgerM

end PowerfarmKernel
