import LinuxCourse.Library.Blocks
import LinuxCourse.Library.Bytes
import Mathlib.Logic.Equiv.Defs

/-! The part of the OpenSSL envelope interface that `mta_crypt.c` calls, as a parameter, and
what is assumed of it for a cipher with the RC2 permutation of each key. A context is set up by
several calls, and what an update does depends on all of them and on their order. -/
namespace LinuxCourse.MtaCrypt
open Library Bytes

def EVP_MAX_KEY_LENGTH : Nat := 64

def RC2_KEY_LENGTH : Nat := 16

def BLOCK_SIZE : Nat := 8

abbrev Rc2 : Type := List UInt8 → Equiv.Perm (Block UInt8 BLOCK_SIZE)

/-- What the calls make of a context where they succeed, for both directions; an update cannot
where the context was not set up for it. -/
structure Evp where
  CIPHER_CTX : Type
  new : CIPHER_CTX
  init : CIPHER_CTX → Bool → Option Nat → Option (List UInt8) → CIPHER_CTX
  setKeyLength : CIPHER_CTX → BitVec 32 → CIPHER_CTX
  setPadding : CIPHER_CTX → Bool → CIPHER_CTX
  update : CIPHER_CTX → Bool → List UInt8 → Option (List UInt8 × CIPHER_CTX)

/-- What a context holds: `cipher` is the handle that it was given, `buffered` the input that an
update has not turned into output. -/
structure Ctx where
  cipher : Option Nat
  encrypting : Bool
  keyLength : Nat
  key : List UInt8
  padding : Bool
  buffered : List UInt8

namespace Ctx

def new : Ctx := ⟨none,true,0,[],true,[]⟩

/-- `EVP_EncryptInit_ex` and `EVP_DecryptInit_ex`. A cipher resets the context, its key
length and padding included; a key is as long as the context says at the time. -/
def init (ctx : Ctx) (encrypting : Bool) (cipher : Option Nat) (key : Option (List UInt8)) : Ctx :=
  let ctx := match cipher with
    | some handle => {new with cipher := some handle,encrypting,keyLength := RC2_KEY_LENGTH}
    | none => {ctx with encrypting,buffered := []}
  match key with
  | some bytes => {ctx with key := bytes.take ctx.keyLength}
  | none => ctx

def transform (rc2 : Rc2) (ctx : Ctx) : Block UInt8 BLOCK_SIZE → Block UInt8 BLOCK_SIZE :=
  if ctx.encrypting then rc2 ctx.key else (rc2 ctx.key).symm

/-- The blocks that an update turns into output. With padding, a decryption that ends on a
block boundary holds the last block back, since it may be the padding. -/
def ready (ctx : Ctx) (size : Nat) : Nat :=
  if ctx.encrypting = false ∧ ctx.padding = true ∧ size % BLOCK_SIZE = 0 then size/BLOCK_SIZE-1
  else size/BLOCK_SIZE

def update (rc2 : Rc2) (ctx : Ctx) (input : List UInt8) : List UInt8 × Ctx :=
  let data := ctx.buffered++input
  (Block.mapBlocks (ctx.transform rc2) (ctx.ready data.length) data,
    {ctx with buffered := data.drop (ctx.ready data.length*BLOCK_SIZE)})

theorem update_empty (rc2 : Rc2) (ctx : Ctx) (input : List UInt8) (empty : ctx.buffered = []) :
    (ctx.update rc2 input).1 = Block.mapBlocks (ctx.transform rc2) (ctx.ready input.length) input := by
  rw [update,empty,List.nil_append]

/-- Contexts that hold just this. -/
def evp (rc2 : Rc2) : Evp where
  CIPHER_CTX := Ctx
  new := new
  init := init
  setKeyLength ctx length := {ctx with keyLength := length.toNat}
  setPadding ctx on := {ctx with padding := on}
  update ctx encrypting input := if ctx.encrypting = encrypting then some (ctx.update rc2 input) else none

end Ctx

/-- What is assumed of OpenSSL for the cipher behind `handle`, where `holds` says what a context
holds. -/
structure Evp.Documented (evp : Evp) (rc2 : Rc2) (handle : Nat) (holds : evp.CIPHER_CTX → Ctx) : Prop where
  fresh : ∀ encrypting, holds (evp.init evp.new encrypting (some handle) none) =
    {Ctx.new with cipher := some handle,encrypting,keyLength := RC2_KEY_LENGTH}
  resized : ∀ ctx length, (holds ctx).cipher = some handle →
    holds (evp.setKeyLength ctx length) = {holds ctx with keyLength := length.toNat}
  keyed : ∀ ctx encrypting key, (holds ctx).cipher = some handle →
    holds (evp.init ctx encrypting none (some key)) =
      {holds ctx with encrypting,key := key.take (holds ctx).keyLength,buffered := []}
  padded : ∀ ctx on, (holds ctx).cipher = some handle →
    holds (evp.setPadding ctx on) = {holds ctx with padding := on}
  updated : ∀ ctx input, (holds ctx).cipher = some handle → (holds ctx).buffered = [] →
    ∃ next, evp.update ctx (holds ctx).encrypting input =
      some (Block.mapBlocks ((holds ctx).transform rc2) ((holds ctx).ready input.length) input,next)

theorem Ctx.evp_documented (rc2 : Rc2) (handle : Nat) : (Ctx.evp rc2).Documented rc2 handle id where
  fresh _ := rfl
  resized _ _ _ := rfl
  keyed _ _ _ _ := rfl
  padded _ _ _ := rfl
  updated ctx input _ empty :=
    ⟨_,(if_pos rfl).trans (congrArg some (Prod.ext (update_empty rc2 ctx input empty) rfl))⟩

inductive Call
  | new
  | init (encrypting : Bool) (cipher : Option Nat) (key : Option (List UInt8))
  | setKeyLength (length : BitVec 32)
  | setPadding (on : Bool)
  | update (encrypting : Bool) (input : List UInt8)
  | free
  deriving DecidableEq

structure Session (evp : Evp) where
  ctx : Option evp.CIPHER_CTX
  output : List UInt8
  len : Nat
  calls : List Call

namespace Session
variable {evp : Evp}

def start (evp : Evp) (output : List UInt8) : Session evp := ⟨none,output,0,[]⟩

/-- The effect of a call that succeeds; `none` where it cannot, for want of a context or
for one that was set up for the other direction. -/
def apply (session : Session evp) : Call → Option (Session evp)
  | .new => some {session with ctx := some evp.new}
  | .init encrypting cipher key =>
    session.ctx.map fun ctx => {session with ctx := some (evp.init ctx encrypting cipher key)}
  | .setKeyLength length =>
    session.ctx.map fun ctx => {session with ctx := some (evp.setKeyLength ctx length)}
  | .setPadding on =>
    session.ctx.map fun ctx => {session with ctx := some (evp.setPadding ctx on)}
  | .update encrypting input =>
    session.ctx.bind fun ctx => (evp.update ctx encrypting input).map fun done =>
      {session with
        ctx := some done.2
        output := store session.output done.1
        len := done.1.length}
  | .free => some {session with ctx := none}

def issue (succeeds : Call → Bool) (session : Session evp) (call : Call) : Option (Session evp) :=
  if succeeds call then ({session with calls := session.calls++[call]}).apply call else none

def follow (succeeds : Call → Bool) (session : Session evp) : List Call → Bool × Session evp
  | [] => (true,session)
  | call::rest =>
    match session.issue succeeds call with
    | some next => next.follow succeeds rest
    | none => (false,{session with calls := session.calls++[call]})

def free (session : Session evp) : Session evp :=
  {session with ctx := none,calls := session.calls++[.free]}

end Session

end LinuxCourse.MtaCrypt
