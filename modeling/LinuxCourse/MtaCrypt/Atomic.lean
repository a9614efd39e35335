import LinuxCourse.Library.Lifecycle
import LinuxCourse.MtaCrypt.History
import LinuxCourse.MtaCrypt.Lengths
import Mathlib.Data.Option.Basic

/-! Errors of `MTA_encrypt` and `MTA_decrypt`. The checks come before the context, the update
after all the other calls, and each way out behind the checks goes over the label `fin`. -/
namespace LinuxCourse.MtaCrypt
open Library

/-- What a call does with the context. -/
def Call.act (succeeds : Call → Bool) : Call → Act
  | .new => .create (succeeds .new)
  | .free => .free
  | _ => .use

def lifeOf (succeeds : Call → Bool) (calls : List Call) : Option Life :=
  Life.absent.replay (calls.map (Call.act succeeds))

structure Arguments.Checked (arguments : Arguments) (globals : Globals) : Prop where
  valid : arguments.Valid
  provider : globals.provider.isSome
  cipher : globals.cipher.isSome

structure Atomic (arguments : Arguments) (result : Result) (checked : Prop) : Prop where
  unchanged : result.status ≠ .MTA_CRYPT_RET_OK →
    result.output = arguments.output ∧ result.output_length = arguments.output_length
  life : lifeOf arguments.succeeds result.calls =
    some (if .new ∈ result.calls ∧ arguments.succeeds .new = true then .freed else .absent)
  quiet : result.calls = [] ↔ ¬checked

section
variable (evp : Evp) (succeeds : Call → Bool)

theorem issue_frame (session next : Session evp) (call : Call)
    (issued : session.issue succeeds call = some next) :
    next.calls = session.calls++[call] ∧
      ((∀ encrypting input, call ≠ .update encrypting input) → next.output = session.output) := by
  unfold Session.issue at issued
  split at issued
  · cases call with
    | new | free =>
      cases issued
      exact ⟨rfl,fun _ => rfl⟩
    | init encrypting cipher key =>
      obtain ⟨_,_,rfl⟩ := Option.map_eq_some_iff.mp issued
      exact ⟨rfl,fun _ => rfl⟩
    | setKeyLength length =>
      obtain ⟨_,_,rfl⟩ := Option.map_eq_some_iff.mp issued
      exact ⟨rfl,fun _ => rfl⟩
    | setPadding on =>
      obtain ⟨_,_,rfl⟩ := Option.map_eq_some_iff.mp issued
      exact ⟨rfl,fun _ => rfl⟩
    | update encrypting input =>
      obtain ⟨_,_,applied⟩ := Option.bind_eq_some_iff.mp issued
      obtain ⟨_,_,rfl⟩ := Option.map_eq_some_iff.mp applied
      exact ⟨rfl,fun reads => absurd rfl (reads encrypting input)⟩
  · contradiction

/-- When only the last call writes, a failure leaves the output as it was. -/
theorem follow_output (session : Session evp) (calls : List Call) (last : Call)
    (reads : ∀ call ∈ calls, ∀ encrypting input, call ≠ .update encrypting input)
    (fails : (session.follow succeeds (calls++[last])).1 = false) :
    (session.follow succeeds (calls++[last])).2.output = session.output := by
  induction calls generalizing session with
  | nil =>
    rw [List.nil_append,Session.follow] at fails ⊢
    cases issued : session.issue succeeds last with
    | none => rfl
    | some next =>
      rw [issued] at fails
      contradiction
  | cons call calls ih =>
    obtain ⟨first,rest⟩ := List.forall_mem_cons.mp reads
    rw [List.cons_append,Session.follow] at fails ⊢
    cases issued : session.issue succeeds call with
    | none => rfl
    | some next =>
      rw [issued] at fails
      exact (ih next rest fails).trans ((issue_frame evp succeeds session next call issued).2 first)

/-- The calls that were made are the first ones of the script. -/
theorem follow_calls (session : Session evp) (calls : List Call) :
    ∃ made, made <+: calls ∧ (session.follow succeeds calls).2.calls = session.calls++made := by
  induction calls generalizing session with
  | nil => exact ⟨[],List.nil_prefix,(List.append_nil _).symm⟩
  | cons call calls ih =>
    rw [Session.follow]
    cases issued : session.issue succeeds call with
    | none => exact ⟨[call],List.cons_prefix_cons.mpr ⟨rfl,List.nil_prefix⟩,rfl⟩
    | some next =>
      obtain ⟨made,within,followed⟩ := ih next
      refine ⟨call::made,List.cons_prefix_cons.mpr ⟨rfl,within⟩,?_⟩
      rw [(issue_frame evp succeeds session next call issued).1] at followed
      rw [followed,List.append_assoc,List.singleton_append]

section
variable (calls : List Call) (output : Option (List UInt8)) (output_length : Option (BitVec 32))

theorem perform_calls :
    ∃ made, made <+: calls ∧ (succeeds .new = false → made = []) ∧
      (perform evp succeeds (.new::calls) output output_length).calls = .new::made++[.free] := by
  have freed : (perform evp succeeds (.new::calls) output output_length).calls =
      ((Session.start evp (output.getD [])).follow succeeds (.new::calls)).2.calls++[.free] := by
    unfold perform
    split
    · rename_i session followed
      rw [followed,Session.free]
    · rename_i session followed
      rw [followed,Session.free]
  rw [freed,Session.follow,Session.issue]
  cases created : succeeds .new with
  | false => exact ⟨[],List.nil_prefix,fun _ => rfl,rfl⟩
  | true =>
    obtain ⟨made,within,followed⟩ :=
      follow_calls evp succeeds ⟨some evp.new,output.getD [],0,[.new]⟩ calls
    refine ⟨made,within,fun absent => absurd absent (by simp),?_⟩
    exact congrArg (·++[Call.free]) followed

theorem perform_life (uses : ∀ call ∈ calls, call.act succeeds = .use) :
    lifeOf succeeds (perform evp succeeds (.new::calls) output output_length).calls =
      some (if succeeds .new = true then .freed else .absent) := by
  obtain ⟨made,within,absent,called⟩ := perform_calls evp succeeds calls output output_length
  rw [called,lifeOf,List.map_append,List.map_cons,List.cons_append,Call.act]
  cases created : succeeds .new with
  | false =>
    rw [absent created]
    rfl
  | true =>
    have used : Life.live.replay (made.map (Call.act succeeds)) = some .live := by
      apply Life.replay_use
      intro act member
      obtain ⟨call,found,rfl⟩ := List.mem_map.mp member
      exact uses call (within.subset found)
    have run : Life.live.replay (made.map (Call.act succeeds)++[.free]) = some .freed := by
      rw [Life.replay_append,used]
      rfl
    exact run

theorem perform_unchanged (last : Call) (given : output.isSome)
    (reads : ∀ call ∈ calls, ∀ encrypting input, call ≠ .update encrypting input)
    (fails : (perform evp succeeds (calls++[last]) output output_length).status ≠ .MTA_CRYPT_RET_OK) :
    (perform evp succeeds (calls++[last]) output output_length).output = output ∧
      (perform evp succeeds (calls++[last]) output output_length).output_length = output_length := by
  have kept := follow_output evp succeeds (Session.start evp (output.getD [])) calls last reads
  unfold perform at fails ⊢
  split
  · rename_i session followed
    rw [followed] at fails
    contradiction
  · rename_i session followed
    rw [followed] at kept
    obtain ⟨bytes,rfl⟩ := Option.isSome_iff_exists.mp given
    exact ⟨congrArg some (kept rfl),rfl⟩

end
end

theorem data_validation_iff (data : Option (List UInt8)) (length : BitVec 32) :
    MTA_CRYPT_INPUT_DATA_VALIDATION data length = none ↔
      data.isSome ∧ lengthStatus length = .MTA_CRYPT_RET_OK := by
  cases data with
  | none => simp [MTA_CRYPT_INPUT_DATA_VALIDATION]
  | some data =>
    rw [← data_validation data length,MTA_CRYPT_INPUT_DATA_VALIDATION,if_neg (by simp)]
    split_ifs <;> simp

theorem null_validation_iff {Pointee : Type} (ptr : Option Pointee) :
    MTA_CRYPT_NULL_VALIDATION ptr = none ↔ ptr.isSome := by
  cases ptr with
  | none => simp [MTA_CRYPT_NULL_VALIDATION]
  | some pointee => simp [MTA_CRYPT_NULL_VALIDATION]

theorem init_validation_iff (pointer : Option Nat) :
    MTA_CRYPT_INIT_VALIDATION pointer = none ↔ pointer.isSome := by
  cases pointer with
  | none => simp [MTA_CRYPT_INIT_VALIDATION]
  | some handle => simp [MTA_CRYPT_INIT_VALIDATION]

theorem atomic_of_checks (evp : Evp) (arguments : Arguments) (invalid : Option Status) (checked : Prop)
    (same : invalid = none ↔ checked) (given : checked → arguments.output.isSome)
    (calls : List Call) (last : Call)
    (uses : ∀ call ∈ calls++[last], call.act arguments.succeeds = .use)
    (reads : ∀ call ∈ .new::calls, ∀ encrypting input, call ≠ .update encrypting input) :
    Atomic arguments
      (match invalid with
        | some status => ⟨status,arguments.output,arguments.output_length,[]⟩
        | none => perform evp arguments.succeeds (.new::(calls++[last]))
            arguments.output arguments.output_length) checked := by
  cases invalid with
  | some status =>
    refine ⟨fun _ => ⟨rfl,rfl⟩,rfl,fun _ holds => ?_,fun _ => rfl⟩
    exact absurd (same.mpr holds) (by simp)
  | none =>
    have holds := same.mp rfl
    obtain ⟨made,_,_,called⟩ := perform_calls evp arguments.succeeds (calls++[last])
      arguments.output arguments.output_length
    constructor
    · exact perform_unchanged evp arguments.succeeds (.new::calls) arguments.output
        arguments.output_length last (given holds) reads
    · rw [perform_life evp arguments.succeeds _ _ _ uses,called]
      simp
    · rw [called]
      simp [holds]

/-- Whatever call fails, and whichever argument is wrong. -/
theorem atomic (evp : Evp) (globals : Globals) (arguments : Arguments) :
    Atomic arguments (arguments.encrypt evp globals)
        (arguments.Checked globals ∧ lengthStatus arguments.data_length = .MTA_CRYPT_RET_OK) ∧
      Atomic arguments (arguments.decrypt evp globals) (arguments.Checked globals) := by
  constructor
  · refine atomic_of_checks evp arguments _ _ ?_ (fun checked => checked.1.valid.output)
      [.init true globals.cipher none,.setKeyLength arguments.key_length,
        .init true none arguments.key,.setPadding false] _ ?_ ?_
    · simp only [Option.orElse_eq_none,key_validation_iff,null_validation_iff,
        init_validation_iff,data_validation_iff]
      constructor
      · rintro ⟨⟨key,keyed,keyBound⟩,data,output,length,provider,cipher,_,rule⟩
        exact ⟨⟨⟨key,keyed,keyBound,data,output,length⟩,provider,cipher⟩,rule⟩
      · rintro ⟨⟨⟨key,keyed,keyBound,data,output,length⟩,provider,cipher⟩,rule⟩
        exact ⟨⟨key,keyed,keyBound⟩,data,output,length,provider,cipher,data,rule⟩
    · simp [Call.act]
    · simp
  · refine atomic_of_checks evp arguments _ _ ?_ (fun checked => checked.valid.output)
      [.init false globals.cipher none,.setKeyLength arguments.key_length,
        .init false none arguments.key,.setPadding false] _ ?_ ?_
    · simp only [Option.orElse_eq_none,key_validation_iff,null_validation_iff,
        init_validation_iff]
      constructor
      · rintro ⟨⟨key,keyed,keyBound⟩,data,output,length,provider,cipher⟩
        exact ⟨⟨key,keyed,keyBound,data,output,length⟩,provider,cipher⟩
      · rintro ⟨⟨key,keyed,keyBound,data,output,length⟩,provider,cipher⟩
        exact ⟨⟨key,keyed,keyBound⟩,data,output,length,provider,cipher⟩
    · simp [Call.act]
    · simp

end LinuxCourse.MtaCrypt
