/-
Class files that are cut short or followed by something else.

Every class that is accepted has a length of its own, however long the input is.  What stands
behind it plays no part, apart from the size that the class is said to have; and if the input
ends before that length, the failure is the end of the input and nothing else.  So a prefix of a
class is never taken for a class, nor for one that is damaged in some other way.

All of it follows from the decoder of classes being sequential.  Offsets count from the start of
what is read, so bounds on them are about the file only as long as no error comes from inside an
attribute.  That is why cutting short cannot reach there: the body of an attribute is read only
once all of it has been found.
-/
import PackageAudit.Proofs.ClassFile.Reading

namespace PackageAudit

open Decoder

/-! ### Constants -/

theorem Constant.sequential_decode (index : Nat) : (Constant.decode index).Sequential := by
  refine sequential_u8.bind fun tag => ?_
  have hpair : ∀ make : UInt16 → UInt16 → Constant,
      (do let first ← u16; return make first (← u16)).Sequential :=
    fun make => sequential_u16.bind fun _ => sequential_u16.map _
  split
  · exact sequential_u16.bind fun length => (sequential_bytes length.toNat).map _
  · exact sequential_u32.map _
  · exact sequential_u32.map _
  · exact sequential_u64.map _
  · exact sequential_u64.map _
  · exact sequential_u16.map _
  · exact sequential_u16.map _
  · exact hpair _
  · exact hpair _
  · exact hpair _
  · exact hpair _
  · exact sequential_u8.bind fun _ => sequential_u16.map _
  · exact sequential_u16.map _
  · exact hpair _
  · exact hpair _
  · exact sequential_u16.map _
  · exact sequential_u16.map _
  · exact sequential_throw _

namespace ConstantPool

theorem sequential_decodeSlots (left index : Nat) : (decodeSlots left index).Sequential := by
  induction left using Nat.strongRecOn generalizing index with
  | ind left ih =>
      cases left with
      | zero => exact sequential_pure _
      | succ left =>
          rw [decodeSlots]
          refine (Constant.sequential_decode index).bind fun constant => ?_
          split
          · -- A wide constant takes the next slot with it, if there is one.
            cases left with
            | zero => exact sequential_pure _
            | succ left => exact (ih left (by omega) _).bind fun _ => sequential_pure _
          · exact (ih left (by omega) _).bind fun _ => sequential_pure _

theorem sequential_decode : ConstantPool.decode.Sequential :=
  sequential_u16.bind fun _ => (sequential_decodeSlots _ 1).map _

variable (pool : ConstantPool)

theorem sequential_decodeUtf8 : pool.decodeUtf8.Sequential :=
  sequential_u16.bind fun _ => sequential_lift _

theorem sequential_decodeClassName : pool.decodeClassName.Sequential :=
  sequential_u16.bind fun _ => (sequential_lift _).map _

theorem sequential_decodeAttribute : pool.decodeAttribute.Sequential :=
  pool.sequential_decodeUtf8.bind fun _ => sequential_u32.bind fun length =>
    (sequential_bytes length.toNat).map _

end ConstantPool

/-! ### Members and classes -/

section

variable (pool : ConstantPool)

-- The body of an attribute is no longer read from the input, so what it holds is a look-up here.

theorem MemberAttribute.sequential_decode : (MemberAttribute.decode pool).Sequential :=
  pool.sequential_decodeAttribute.bind fun _ => sequential_lift _

theorem ClassAttribute.sequential_decode : (ClassAttribute.decode pool).Sequential :=
  pool.sequential_decodeAttribute.bind fun _ => sequential_lift _

theorem Member.sequential_decode : (Member.decode pool).Sequential :=
  sequential_u16.bind fun _ => pool.sequential_decodeUtf8.bind fun _ =>
    pool.sequential_decodeUtf8.bind fun _ =>
      (MemberAttribute.sequential_decode pool).counted.map _

end

namespace ClassFile

theorem sequential_decode (size : Nat) : (decode size).Sequential := by
  refine sequential_u32.bind fun found => ?_
  split
  · exact fun _ _ _ _ h => nomatch h
  refine sequential_u16.bind fun minorVersion => ?_
  refine sequential_u16.bind fun majorVersion => ?_
  refine ConstantPool.sequential_decode.bind fun pool => ?_
  refine sequential_u16.bind fun accessFlags => ?_
  refine pool.sequential_decodeClassName.bind fun thisClass => ?_
  refine sequential_u16.bind fun superIndex => ?_
  refine (sequential_lift _).bind fun superClass => ?_
  refine pool.sequential_decodeClassName.counted.bind fun interfaces => ?_
  refine (Member.sequential_decode pool).counted.bind fun fields => ?_
  refine (Member.sequential_decode pool).counted.bind fun methods => ?_
  exact (ClassAttribute.sequential_decode pool).counted.map _

/-- The length of the input shows in the size of the class only. -/
theorem decode_eq_withSize (size other : Nat) :
    decode size = do return { (← decode other) with size } := by
  unfold decode
  rw [bind_assoc]
  congr 1
  funext found
  by_cases hmagic : found = magic
  · simp only [hmagic, ne_eq, not_true, if_false, bind_assoc, pure_bind]
  · simp only [hmagic, ne_eq, not_false_eq_true, if_true]
    rfl

theorem reads_decode {size other : Nat} {used : List UInt8} {file : ClassFile}
    (h : (decode other).Reads used file) : (decode size).Reads used { file with size } := by
  rw [decode_eq_withSize size other]
  exact h.pure_bind fun file => { file with size }

theorem misses_decode {size other : Nat} {used : List UInt8} {file : ClassFile}
    (hreads : (decode other).Reads used file) (h : (decode other).Misses used) :
    (decode size).Misses used := by
  rw [decode_eq_withSize size other, ← List.append_nil used]
  exact Misses.bind hreads h (Misses.nil _)

theorem exists_cursor_of_parse {data : List UInt8} {file : ClassFile}
    (h : parse data = .ok file) :
    ∃ cursor, decode data.length ⟨0, data⟩ = .ok (file, cursor) := by
  unfold parse runOn at h
  cases hdecode : decode data.length ⟨0, data⟩ with
  | error e =>
      rw [hdecode] at h
      exact nomatch h
  | ok result =>
      rw [hdecode] at h
      exact ⟨result.2, by rw [← Except.ok.inj h]⟩

/-- **A class has a length of its own.**  Up to there it is the same class whatever follows, and
shorter input fails because it is too short. -/
theorem parse_of_prefix {data : List UInt8} {file : ClassFile} (h : parse data = .ok file) :
    ∃ n ≤ data.length,
      (∀ rest, parse (data.take n ++ rest) = .ok { file with size := n + rest.length })
      ∧ ∀ m < n, ∃ offset needed, parse (data.take m) = .error (.truncated offset needed)
        ∧ offset ≤ m ∧ m < offset + needed := by
  obtain ⟨cursor, hdecode⟩ := exists_cursor_of_parse h
  obtain ⟨used, hdata, hreads, hmisses⟩ := sequential_decode data.length _ _ _ _ hdecode
  have hlength : data.length = used.length + cursor.rest.length := by
    rw [hdata, List.length_append]
  refine ⟨used.length, by omega, ?_, ?_⟩
  · intro rest
    rw [hdata, List.take_left, parse, List.length_append]
    exact (reads_decode hreads).runOn rest
  · intro m hm
    have htake : data.take m = used.take m := by
      rw [hdata, List.take_append_of_le_length (by omega)]
    rw [htake, parse]
    exact (misses_decode hreads hmisses).runOn hm

/-- A class with a method that has code and with an annotation, and two bytes that do not belong to
it. -/
def markedClassBytes : List UInt8 :=
  [202, 254, 186, 190, 0, 0, 0, 52] ++
  [0, 10, 1, 0, 1, 65, 7, 0, 1, 1, 0, 3, 114, 117, 110, 1, 0, 3, 40, 41, 86, 1, 0, 4, 67, 111,
    100, 101, 1, 0, 25, 82, 117, 110, 116, 105, 109, 101, 86, 105, 115, 105, 98, 108, 101, 65,
    110, 110, 111, 116, 97, 116, 105, 111, 110, 115, 1, 0, 6, 76, 77, 97, 114, 107, 59, 1, 0, 5,
    118, 97, 108, 117, 101, 3, 0, 0, 0, 5] ++
  [0, 33, 0, 2, 0, 0, 0, 0, 0, 0] ++
  [0, 1, 0, 1, 0, 3, 0, 4, 0, 1, 0, 5, 0, 0, 0, 13, 0, 1, 0, 1, 0, 0, 0, 1, 177, 0, 0, 0, 0] ++
  [0, 1, 0, 6, 0, 0, 0, 11, 0, 1, 0, 7, 0, 1, 0, 8, 73, 0, 9] ++
  [9, 9]

theorem markedClass_of_prefix : ∃ file, parse markedClassBytes = .ok file
    ∧ file.methods.map (·.codeLength) = [some 1] ∧ file.annotations.length = 1
    ∧ ∃ n ≤ markedClassBytes.length,
      (∀ rest, parse (markedClassBytes.take n ++ rest) = .ok { file with size := n + rest.length })
      ∧ ∀ m < n, ∃ offset needed,
        parse (markedClassBytes.take m) = .error (.truncated offset needed)
          ∧ offset ≤ m ∧ m < offset + needed := by
  have hparts : (parse markedClassBytes).toOption.map
      (fun file => (file.methods.map (·.codeLength), file.annotations.length))
        = some ([some 1], 1) := by
    decide +kernel
  obtain ⟨file, hfile, hparts⟩ := Option.map_eq_some_iff.mp hparts
  obtain ⟨hlengths, hannotations⟩ := Prod.mk.inj hparts
  have hparse : parse markedClassBytes = .ok file := by
    cases hresult : parse markedClassBytes with
    | error cause =>
        rw [hresult] at hfile
        cases hfile
    | ok found =>
        rw [hresult] at hfile
        rw [Option.some.inj hfile]
  exact ⟨file, hparse, hlengths, hannotations, parse_of_prefix hparse⟩

end ClassFile

end PackageAudit
