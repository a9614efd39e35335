import LinuxCourse.Library.Lingering
import LinuxCourse.Processes.PiperwSafety

/-! The parent's loop in `main` of `processes/piperw.cpp` on any byte string that
the child may send before it closes the pipe, with any outcome of each read. The
loop is left only through the END case of the switch: `endOpCode` is never set,
a read of nothing is a TEXT message of length 0, and a null result is used. -/
namespace LinuxCourse.Piperw
open Library Bytes Tlv

/-- One line of the parent's output; `none` where `%s` runs past `value`. -/
inductive Line
  | type (shown : Int)
  | length (shown : Int)
  | value (shown : Option (List UInt8))
  | exiting

inductive Status
  | looping
  | left
  | nullDereference
  | overrun
  deriving DecidableEq

structure Log where
  handled : List TLV
  printed : List Line
  readFailed : Bool
  status : Status

def TLV.text (tlv : TLV) : Option (List UInt8) :=
  if 0 ∈ tlv.value then some (tlv.value.takeWhile (· ≠ 0)) else none

def TLV.lines (tlv : TLV) : List Line :=
  if tlv.type = TEXT_OP_CODE then
    [.type tlv.type.toInt,.length tlv.length.toInt,.value tlv.text]
  else if tlv.type = END_OP_CODE then [.exiting]
  else []

def parentLoop : Nat → Source → Log
  | 0, _ => ⟨[],[],false,.looping⟩
  | rounds+1, source =>
    let failed := readTlvFromPipe.fails source
    match readTlvFromPipe.run source with
    | (.overrun,_) => ⟨[],[],failed,.overrun⟩
    | (.returned none,_) => ⟨[],[],failed,.nullDereference⟩
    | (.returned (some tlv),rest) =>
      if tlv.type = END_OP_CODE then ⟨[tlv],tlv.lines,failed,.left⟩
      else
        let log := parentLoop rounds rest
        ⟨tlv::log.handled,tlv.lines++log.printed,failed || log.readFailed,log.status⟩

def frame (bytes : List UInt8) : Option (Payload × List UInt8) :=
  let length := decode ((bytes.take 8).drop 4)
  if 8 ≤ bytes.length ∧ length.toNat ≤ 1024 ∧ length.toNat ≤ (bytes.drop 8).length then
    some (⟨decode ((bytes.take 8).take 4),length,(bytes.drop 8).take length.toNat⟩,
      (bytes.drop 8).drop length.toNat)
  else none

theorem frame_length (bytes rest : List UInt8) (payload : Payload)
    (complete : frame bytes = some (payload,rest)) : rest.length+8 ≤ bytes.length := by
  simp only [frame] at complete
  split at complete
  · rename_i enough
    cases Option.some.inj complete
    simp only [List.length_drop]
    omega
  · contradiction

def sentFrames (bytes : List UInt8) : List Payload :=
  match _complete : frame bytes with
  | none => []
  | some (payload,rest) =>
    if payload.type = END_OP_CODE then [payload] else payload::sentFrames rest
termination_by bytes.length
decreasing_by
  have shorter := frame_length bytes rest payload (by assumption)
  omega

/-- The parent handles exactly the complete frames, short of what a failed read cut
off, and leaves its loop. -/
def Correct (source : Source) : Prop :=
  ∃ rounds, (parentLoop rounds source).status = .left ∧
    (parentLoop rounds source).handled.map TLV.payload <+: sentFrames source.bytes ∧
    ((parentLoop rounds source).readFailed = false →
      (parentLoop rounds source).handled.map TLV.payload = sentFrames source.bytes)

/-- Every frame up to a complete END frame is read in full; of the END frame itself
only zero bytes may be left unread. -/
inductive Drains : Source → Prop
  | last (source payload rest)
      (complete : frame source.bytes = some (payload,rest)) (ends : payload.type = END_OP_CODE)
      (headed : source.cut ≠ .fail ∧ header (source.delivered 8) = source.bytes.take 8)
      (valued : (source.after 8).cut ≠ .fail ∧
        store (zeros payload.length.toNat) ((source.after 8).delivered payload.length.toNat) =
          payload.value) :
      Drains source
  | next (source payload rest)
      (complete : frame source.bytes = some (payload,rest)) (goesOn : payload.type ≠ END_OP_CODE)
      (headed : source.cut.Serves 8) (valued : (source.after 8).cut.Serves payload.length.toNat)
      (later : Drains ((source.after 8).after payload.length.toNat)) :
      Drains source

theorem frame_parts (bytes rest : List UInt8) (payload : Payload)
    (complete : frame bytes = some (payload,rest)) :
    ∃ head, bytes = head++(payload.value++rest) ∧ head.length = 8 ∧
      payload.type = decode (head.take 4) ∧ payload.length = decode (head.drop 4) ∧
      payload.value.length = payload.length.toNat ∧ payload.length.toNat ≤ 1024 := by
  simp only [frame] at complete
  split at complete
  · rename_i enough
    obtain ⟨present,short,held⟩ := enough
    cases Option.some.inj complete
    refine ⟨bytes.take 8,?_,by rw [List.length_take]; omega,rfl,rfl,?_,short⟩
    · rw [List.take_append_drop,List.take_append_drop]
    · exact List.length_take_of_le held
  · contradiction

theorem sentFrames_cons (bytes rest : List UInt8) (payload : Payload)
    (complete : frame bytes = some (payload,rest)) :
    sentFrames bytes = if payload.type = END_OP_CODE then [payload] else payload::sentFrames rest := by
  rw [sentFrames]
  split
  · rename_i none
    rw [none] at complete
    contradiction
  · rename_i other remaining same
    rw [same] at complete
    cases Option.some.inj complete
    rfl

theorem sentFrames_nonempty (bytes : List UInt8) (payload : Payload) (later : List Payload)
    (sent : payload::later = sentFrames bytes) :
    ∃ rest, frame bytes = some (payload,rest) ∧
      (payload.type = END_OP_CODE ∨ payload.type ≠ END_OP_CODE ∧ later = sentFrames rest) := by
  cases complete : frame bytes with
  | none =>
    rw [sentFrames] at sent
    split at sent
    · contradiction
    · rename_i same
      rw [same] at complete
      contradiction
  | some parsed =>
    rw [sentFrames_cons bytes parsed.2 parsed.1 complete] at sent
    split at sent
    · rename_i ends
      obtain ⟨rfl,_⟩ := List.cons.inj sent
      exact ⟨parsed.2,rfl,Or.inl ends⟩
    · rename_i goesOn
      obtain ⟨rfl,same⟩ := List.cons.inj sent
      exact ⟨parsed.2,rfl,Or.inr ⟨goesOn,same⟩⟩

theorem header_length (data : List UInt8) : (header data).length = 8 := by simp [header]

theorem header_decoded (data head : List UInt8) (size : head.length = 8)
    (type : decode ((header data).take 4) = decode (head.take 4))
    (length : decode ((header data).drop 4) = decode (head.drop 4)) : header data = head := by
  have width := header_length data
  have front := decode_injective _ _ (by simp [width]) (by simp [width,size]) type
  have behind := decode_injective _ _ (by simp [width]) (by simp [width,size]) length
  rw [← List.take_append_drop 4 (header data),front,behind,List.take_append_drop]

theorem headerAt_fields (source : Source) :
    (headerAt source).type = decode ((header (source.delivered 8)).take 4) ∧
    (headerAt source).length = decode ((header (source.delivered 8)).drop 4) := by
  rw [headerAt,storeObject_header _ (source.delivered_length_le 8)]
  exact ⟨rfl,rfl⟩

theorem call_payload (source : Source) (bound : (headerAt source).length.toNat ≤ 1024) :
    ((headerAt source).storeValue (valueAt source)).payload =
      ⟨(headerAt source).type,(headerAt source).length,
        store (zeros (headerAt source).length.toNat)
          ((source.after 8).delivered (headerAt source).length.toNat)⟩ := by
  have blank : (headerAt source).value = zeros 1024 :=
    storeObject_value _ (source.delivered_length_le 8)
  have count := toSize_nonneg (headerAt source).length (by omega)
  simp only [TLV.payload,TLV.storeValue_type,TLV.storeValue_length,TLV.storeValue_value,blank,valueAt,
    count,Payload.mk.injEq,true_and]
  exact store_take 1024 _ _ bound (Source.delivered_length_le _ _)

theorem call_returns (source rest : Source) (tlv : TLV)
    (returned : readTlvFromPipe.run source = (.returned (some tlv),rest)) :
    source.cut ≠ .fail ∧ (source.after 8).cut ≠ .fail ∧ rest = afterCall source ∧
      tlv = (headerAt source).storeValue (valueAt source) ∧ readTlvFromPipe.fails source = false := by
  by_cases works : source.cut = .fail
  · rw [(run_header_fails source works).1] at returned
    cases returned
  obtain ⟨_,result,failed⟩ := run_header_works source works
  rw [result] at returned
  obtain ⟨outcome,same⟩ := Prod.mk.inj returned
  by_cases answered : (source.after 8).cut = .fail
  · rw [if_pos answered] at outcome
    cases outcome
  rw [if_neg answered] at outcome
  split at outcome
  · exact ⟨works,answered,same.symm,(Option.some.inj (Outcome.returned.inj outcome)).symm,
      by simp [failed,answered]⟩
  · cases outcome

theorem handled_status (rounds : Nat) (source : Source)
    (left : (parentLoop rounds source).status = .left) :
    (parentLoop rounds source).readFailed = false := by
  induction rounds generalizing source with
  | zero => cases left
  | succ rounds ih =>
    simp only [parentLoop] at left ⊢
    split at left
    · cases left
    · cases left
    · rename_i tlv rest returned
      obtain ⟨_,_,_,_,failed⟩ := call_returns source rest tlv returned
      split at left
      · rename_i ends
        simp only [ends,if_true,failed]
      · rename_i goesOn
        simp only [goesOn,if_false,failed,ih rest left,Bool.or_self]

/-- A call that starts `lag` zero bytes before a frame and yields its message stops
at least as many zero bytes before the next one. -/
theorem call_lags (source : Source) (lag : Nat) (bytes rest : List UInt8) (payload : Payload)
    (ahead : source.bytes = zeros lag++bytes) (complete : frame bytes = some (payload,rest))
    (works : source.cut ≠ .fail) (answered : (source.after 8).cut ≠ .fail)
    (same : ((headerAt source).storeValue (valueAt source)).payload = payload) :
    ∃ behind, (afterCall source).bytes = zeros behind++rest ∧ lag ≤ behind ∧
      (behind = 0 → source.cut.Serves 8 ∧ (source.after 8).cut.Serves payload.length.toNat) ∧
      header (source.delivered 8) = bytes.take 8 ∧
      store (zeros payload.length.toNat) ((source.after 8).delivered payload.length.toNat) =
        payload.value ∧
      afterCall source = (source.after 8).after payload.length.toNat := by
  obtain ⟨head,split,size,type,length,held,short⟩ := frame_parts bytes rest payload complete
  have sameLength : (headerAt source).length = payload.length := by
    rw [← same,payload_length,TLV.storeValue_length]
  have sameType : (headerAt source).type = payload.type := by
    rw [← same,payload_type,TLV.storeValue_type]
  rw [call_payload source (by rw [sameLength]; exact short)] at same
  have sameValue := congrArg Payload.value same
  rw [sameLength] at sameValue
  obtain ⟨typed,counted⟩ := headerAt_fields source
  have headed : header (source.delivered 8) = head :=
    header_decoded _ _ size (by rw [← typed,sameType,type]) (by rw [← counted,sameLength,length])
  have count : toSize (headerAt source).length = payload.length.toNat := by
    rw [sameLength]
    exact toSize_nonneg _ (by omega)
  obtain ⟨middle,afterHead,more,servedHead⟩ :=
    source.lagging lag 8 head (payload.value++rest) (split ▸ ahead) size works headed
  obtain ⟨behind,afterValue,most,servedValue⟩ :=
    (source.after 8).lagging middle payload.length.toNat payload.value rest afterHead held answered sameValue
  refine ⟨behind,by rw [afterCall,count]; exact afterValue,by omega,?_,?_,sameValue,by rw [afterCall,count]⟩
  · intro none
    exact ⟨servedHead (by omega),servedValue none⟩
  · rw [headed,split,List.take_left' size]

theorem lagging_not_end (source : Source) (lag : Nat) (bytes : List UInt8) (late : 0 < lag)
    (ahead : source.bytes = zeros lag++bytes) (works : source.cut ≠ .fail) :
    (headerAt source).type ≠ END_OP_CODE := by
  have present : source.bytes ≠ [] := by
    rw [ahead]
    cases lag with
    | zero => omega
    | succ lag => simp [zeros,List.replicate_succ]
  have some := source.delivered_ne_nil 8 (by omega) works present
  have first : ∃ more, source.delivered 8 = 0::more := by
    cases delivered : source.delivered 8 with
    | nil => exact absurd delivered some
    | cons byte more =>
      have joined := source.delivered_append 8
      rw [delivered,ahead] at joined
      cases lag with
      | zero => omega
      | succ lag =>
        simp only [zeros,List.replicate_succ,List.cons_append,List.cons.injEq] at joined
        exact ⟨more,by rw [joined.1]⟩
  obtain ⟨more,delivered⟩ := first
  intro ends
  rw [(headerAt_fields source).1] at ends
  have code : END_OP_CODE = decode [1,0,0,0] := by decide
  rw [code] at ends
  have short := source.delivered_length_le 8
  have bytes := decode_injective _ _ (by simp [header_length]) (by simp [header_length]) ends
  rw [header,store_zeros _ _ short,delivered] at bytes
  simp at bytes

theorem left_drains (rounds lag : Nat) (source : Source) (bytes : List UInt8)
    (ahead : source.bytes = zeros lag++bytes) (left : (parentLoop rounds source).status = .left)
    (handled : (parentLoop rounds source).handled.map TLV.payload = sentFrames bytes) :
    lag = 0 ∧ Drains source := by
  induction rounds generalizing source lag bytes with
  | zero => cases left
  | succ rounds ih =>
    simp only [parentLoop] at left handled
    split at left
    · cases left
    · cases left
    · rename_i tlv next returned
      obtain ⟨works,answered,rfl,rfl,_⟩ := call_returns source next tlv returned
      simp only [returned] at handled
      split at left
      · rename_i ends
        simp only [ends,if_true,List.map_cons,List.map_nil] at handled
        obtain ⟨rest,complete,_⟩ := sentFrames_nonempty bytes _ _ handled
        obtain ⟨_,_,_,_,headed,valued,_⟩ :=
          call_lags source lag bytes rest _ ahead complete works answered rfl
        have none : lag = 0 := by
          by_contra some
          exact lagging_not_end source lag bytes (Nat.pos_of_ne_zero some) ahead works ends
        subst none
        rw [zeros,List.replicate_zero,List.nil_append] at ahead
        subst ahead
        exact ⟨rfl,.last source _ rest complete (by rw [payload_type]; exact ends) ⟨works,headed⟩
          ⟨answered,valued⟩⟩
      · rename_i goesOn
        simp only [goesOn,if_false,List.map_cons] at handled
        obtain ⟨rest,complete,ends | ⟨_,later⟩⟩ := sentFrames_nonempty bytes _ _ handled
        · exact absurd ends goesOn
        obtain ⟨behind,after,more,served,_,_,position⟩ :=
          call_lags source lag bytes rest _ ahead complete works answered rfl
        obtain ⟨none,drains⟩ := ih behind (afterCall source) rest after left later
        have inStep : lag = 0 := by omega
        subst inStep
        rw [zeros,List.replicate_zero,List.nil_append] at ahead
        subst ahead
        rw [position] at drains
        exact ⟨rfl,.next source _ rest complete (by rw [payload_type]; exact goesOn)
          (served none).1 (served none).2 drains⟩

theorem call_complete (source : Source) (rest : List UInt8) (payload : Payload)
    (complete : frame source.bytes = some (payload,rest))
    (works : source.cut ≠ .fail) (headed : header (source.delivered 8) = source.bytes.take 8)
    (answered : (source.after 8).cut ≠ .fail)
    (valued : store (zeros payload.length.toNat)
      ((source.after 8).delivered payload.length.toNat) = payload.value) :
    ∃ tlv, readTlvFromPipe.run source =
        (.returned (some tlv),(source.after 8).after payload.length.toNat) ∧
      tlv.payload = payload ∧ readTlvFromPipe.fails source = false := by
  obtain ⟨head,split,size,type,length,held,short⟩ := frame_parts _ rest payload complete
  have front : source.bytes.take 8 = head := by rw [split,List.take_left' size]
  obtain ⟨typed,counted⟩ := headerAt_fields source
  rw [headed,front] at typed counted
  have sameLength : (headerAt source).length = payload.length := by rw [counted,length]
  have count : toSize (headerAt source).length = payload.length.toNat := by
    rw [sameLength]
    exact toSize_nonneg _ (by omega)
  have fits : (valueAt source).length ≤ 1024 := by
    have taken := (source.after 8).delivered_length_le (toSize (headerAt source).length)
    rw [count] at taken
    rw [valueAt,count]
    omega
  obtain ⟨_,result,failed⟩ := run_header_works source works
  refine ⟨(headerAt source).storeValue (valueAt source),?_,?_,by simp [failed,answered]⟩
  · rw [result,if_neg answered,if_pos fits,afterCall,count]
  · rw [call_payload source (by rw [sameLength]; exact short),sameLength,typed,valued,← type]

theorem drains_left (source : Source) (drains : Drains source) :
    ∃ rounds, (parentLoop rounds source).status = .left ∧
      (parentLoop rounds source).handled.map TLV.payload = sentFrames source.bytes := by
  induction drains with
  | last source payload rest complete ends headed valued =>
    obtain ⟨tlv,returned,rfl,_⟩ := call_complete source rest payload complete headed.1 headed.2 valued.1 valued.2
    have ending : tlv.type = END_OP_CODE := ends
    refine ⟨1,?_⟩
    simp only [parentLoop,returned,ending,if_true,List.map_cons,List.map_nil,true_and]
    rw [sentFrames_cons _ rest _ complete,if_pos ends]
  | next source payload rest complete goesOn headed valued later ih =>
    obtain ⟨head,split,size,_,_,held,_⟩ := frame_parts _ rest payload complete
    obtain ⟨front,behind⟩ := source.delivered_served 8 headed
    obtain ⟨value,remaining⟩ := (source.after 8).delivered_served payload.length.toNat valued
    rw [split,List.drop_left' size] at behind
    rw [behind,List.take_left' held] at value
    rw [behind,List.drop_left' held] at remaining
    have works : source.cut ≠ .fail := by
      intro fails
      rw [fails] at headed
      exact headed
    have answered : (source.after 8).cut ≠ .fail := by
      intro fails
      rw [fails] at valued
      exact valued
    have whole : header (source.delivered 8) = source.bytes.take 8 := by
      rw [front,split,List.take_left' size]
      exact store_full _ _ (by simp [size])
    obtain ⟨tlv,returned,rfl,_⟩ := call_complete source rest payload complete works whole answered
      (by rw [value]; exact store_full _ _ (by simp [held]))
    obtain ⟨rounds,left,handled⟩ := ih
    have going : tlv.type ≠ END_OP_CODE := goesOn
    refine ⟨rounds+1,?_,?_⟩
    · simp only [parentLoop,returned,going,if_false]
      exact left
    · simp only [parentLoop,returned,going,if_false,List.map_cons,handled]
      rw [sentFrames_cons source.bytes rest _ complete,if_neg goesOn,remaining]

/-- The loop does what it should exactly on the streams that are drained to an END
frame: an end of file or a failed read before that is never survived. -/
theorem parent_correct_iff (source : Source) : Correct source ↔ Drains source := by
  constructor
  · rintro ⟨rounds,left,_,handled⟩
    exact (left_drains rounds 0 source source.bytes rfl left
      (handled (handled_status rounds source left))).2
  · intro drains
    obtain ⟨rounds,left,handled⟩ := drains_left source drains
    exact ⟨rounds,left,by rw [handled],fun _ => handled⟩

theorem parent_incorrect_eof : ¬ Correct (Source.closed []) := by
  rintro ⟨rounds,left,_,handled⟩
  obtain ⟨_,drains⟩ := left_drains rounds 0 (Source.closed []) [] rfl left
    (handled (handled_status rounds _ left))
  have none : frame (Source.closed []).bytes = none := by decide
  cases drains with
  | last _ payload rest complete =>
    rw [none] at complete
    contradiction
  | next _ payload rest complete =>
    rw [none] at complete
    contradiction

def leaves : Option TLV → Bool
  | none => true
  | some tlv => tlv.type = END_OP_CODE

/-- `close(pipefd[WRITE_END])` comes before the loop: whatever the child has written when it
goes, the parent is not left in a read. -/
theorem never_stranded (capacity : Nat) (sent : List TLV) (actions : List Lingering.Action)
    (final : Lingering.State (Option TLV))
    (reached : Execution.run (Lingering.step false capacity readTlvFromPipe leaves)
      (Lingering.initial readTlvFromPipe PIPE_BUF (sent.map writeTlvToPipe)) actions = some final) :
    ¬Lingering.Stranded final := by
  apply Lingering.released_free capacity readTlvFromPipe leaves actions _ final _ reached
  intro gone
  contradiction

end LinuxCourse.Piperw
