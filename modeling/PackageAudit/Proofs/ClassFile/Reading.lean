/-
What a decoder does with its input.

Two things are said of a decoder and some bytes.  That it *reads* them as a value: standing in
front of them it gives the value and stops right behind them, wherever it stands and whatever
follows.  And that it *misses* them when they are cut short: on every proper part of them from
the front it fails, because bytes are missing at the end, and for no other reason.

A decoder is *sequential* if whatever it accepts is so.  All decoders of class files are,
since all of them are put together from `bytes` by steps that keep it: doing one thing after
another, and choosing the next by what was read before.  Only what a decoder looks at outside
its input could break this, and the one thing there is, the body of an attribute, has been
taken from the input as a whole.
-/
import PackageAudit.ClassFile.Basic

namespace PackageAudit.Decoder

variable {α β : Type} {f : Decoder α} {g : α → Decoder β} {a : α} {b : β} {u v : List UInt8}

/-- The decoder gives `value` for the bytes `used`. -/
def Reads (decoder : Decoder α) (used : List UInt8) (value : α) : Prop :=
  ∀ offset rest, decoder ⟨offset, used ++ rest⟩ = .ok (value, ⟨offset + used.length, rest⟩)

/-- If the bytes `used` end too early, the decoder says where and how many it asked for. -/
def Misses (decoder : Decoder α) (used : List UInt8) : Prop :=
  ∀ offset m, m < used.length → ∃ start needed,
    decoder ⟨offset, used.take m⟩ = .error (.truncated start needed)
      ∧ start ≤ offset + m ∧ offset + m < start + needed

/-- What the decoder accepts it reads, and misses when it is cut short. -/
def Sequential (decoder : Decoder α) : Prop :=
  ∀ offset data value cursor, decoder ⟨offset, data⟩ = .ok (value, cursor) →
    ∃ used, data = used ++ cursor.rest ∧ decoder.Reads used value ∧ decoder.Misses used

/-! ### One decoder after another -/

theorem bind_of_ok {cursor next : Cursor} (h : f cursor = .ok (a, next)) :
    (f >>= g) cursor = g a next := by
  show (f cursor >>= fun result => g result.1 result.2) = _
  rw [h]
  rfl

theorem bind_of_error {cursor : Cursor} {e : DecodeError} (h : f cursor = .error e) :
    (f >>= g) cursor = .error e := by
  show (f cursor >>= fun result => g result.1 result.2) = _
  rw [h]
  rfl

theorem exists_of_bind_ok {cursor : Cursor} {result : β × Cursor}
    (h : (f >>= g) cursor = .ok result) :
    ∃ a next, f cursor = .ok (a, next) ∧ g a next = .ok result := by
  cases hf : f cursor with
  | error e =>
      rw [bind_of_error hf] at h
      exact nomatch h
  | ok first =>
      obtain ⟨a, next⟩ := first
      rw [bind_of_ok hf] at h
      exact ⟨a, next, rfl, h⟩

theorem Reads.bind (hf : f.Reads u a) (hg : (g a).Reads v b) : (f >>= g).Reads (u ++ v) b := by
  intro offset rest
  rw [List.append_assoc, bind_of_ok (hf offset (v ++ rest)), hg, List.length_append,
    Nat.add_assoc]

theorem Misses.bind (hf : f.Reads u a) (hfm : f.Misses u) (hg : (g a).Misses v) :
    (f >>= g).Misses (u ++ v) := by
  intro offset m hm
  rw [List.length_append] at hm
  by_cases hfirst : m < u.length
  · -- The end is in what the first decoder reads.
    obtain ⟨start, needed, herror, hle, hlt⟩ := hfm offset m hfirst
    refine ⟨start, needed, ?_, hle, hlt⟩
    rw [List.take_append_of_le_length (by omega)]
    exact bind_of_error herror
  · -- The first decoder is not affected, and the second stands that much further on.
    obtain ⟨start, needed, herror, hle, hlt⟩ := hg (offset + u.length) (m - u.length) (by omega)
    refine ⟨start, needed, ?_, by omega, by omega⟩
    have htake : (u ++ v).take m = u ++ v.take (m - u.length) := by
      rw [List.take_append, List.take_of_length_le (by omega)]
    rw [htake, bind_of_ok (hf offset _)]
    exact herror

theorem reads_pure (a : α) : (pure a : Decoder α).Reads [] a := fun _ _ => rfl

theorem Misses.nil (f : Decoder α) : f.Misses [] := fun _ _ hm => absurd hm (Nat.not_lt_zero _)

theorem Reads.bind_nil (hf : f.Reads u a) (hg : (g a).Reads [] b) : (f >>= g).Reads u b := by
  have h := hf.bind hg
  rw [List.append_nil] at h
  exact h

theorem Reads.pure_bind (hf : f.Reads u a) (value : α → β) :
    (do return value (← f)).Reads u (value a) :=
  hf.bind_nil (reads_pure (value a))

theorem Sequential.bind (hf : f.Sequential) (hg : ∀ a, (g a).Sequential) :
    (f >>= g).Sequential := by
  intro offset data value cursor h
  obtain ⟨a, next, hfirst, hsecond⟩ := exists_of_bind_ok h
  obtain ⟨u, hdata, hu, hum⟩ := hf _ _ _ _ hfirst
  obtain ⟨v, hnext, hv, hvm⟩ := hg a _ _ _ _ hsecond
  refine ⟨u ++ v, ?_, hu.bind hv, hum.bind hu hvm⟩
  rw [hdata, hnext, List.append_assoc]

theorem sequential_pure (a : α) : (pure a : Decoder α).Sequential := by
  intro offset data value cursor h
  obtain ⟨rfl, rfl⟩ := Prod.mk.inj (Except.ok.inj h)
  exact ⟨[], rfl, reads_pure a, Misses.nil _⟩

theorem sequential_throw (e : DecodeError) : (throw e : Decoder α).Sequential :=
  fun _ _ _ _ h => nomatch h

theorem Sequential.map (hf : f.Sequential) (value : α → β) :
    (do return value (← f)).Sequential :=
  hf.bind fun _ => sequential_pure _

/-- A look-up reads nothing. -/
theorem reads_lift_ok (a : α) : (lift (.ok a)).Reads [] a := fun _ _ => rfl

theorem sequential_lift (result : Except DecodeError α) : (lift result).Sequential := by
  cases result with
  | error e => exact fun _ _ _ _ h => nomatch h
  | ok a => exact sequential_pure a

theorem Reads.runOn (hf : f.Reads u a) (rest : List UInt8) : f.runOn (u ++ rest) = .ok a := by
  unfold Decoder.runOn
  rw [hf]

theorem Misses.runOn (hf : f.Misses u) {m : Nat} (hm : m < u.length) :
    ∃ start needed, f.runOn (u.take m) = .error (.truncated start needed)
      ∧ start ≤ m ∧ m < start + needed := by
  obtain ⟨start, needed, herror, hle, hlt⟩ := hf 0 m hm
  rw [Nat.zero_add] at hle hlt
  refine ⟨start, needed, ?_, hle, hlt⟩
  unfold Decoder.runOn
  rw [herror]

/-! ### Bytes and numbers -/

theorem bytes_apply (n : Nat) (cursor : Cursor) :
    bytes n cursor
      = if (cursor.rest.take n).length = n
        then .ok (cursor.rest.take n, ⟨cursor.offset + n, cursor.rest.drop n⟩)
        else .error (.truncated cursor.offset n) := by
  unfold bytes
  rw [List.splitAt_eq]

theorem reads_bytes (u : List UInt8) : (bytes u.length).Reads u u := by
  intro offset rest
  rw [bytes_apply, List.take_left, List.drop_left, if_pos rfl]

theorem misses_bytes (u : List UInt8) : (bytes u.length).Misses u := by
  intro offset m hm
  refine ⟨offset, u.length, ?_, by omega, by omega⟩
  have hshort : ((u.take m).take u.length).length ≠ u.length := by
    rw [List.length_take, List.length_take]
    omega
  rw [bytes_apply, if_neg hshort]

theorem sequential_bytes (n : Nat) : (bytes n).Sequential := by
  intro offset data value cursor h
  rw [bytes_apply] at h
  by_cases hlength : (data.take n).length = n
  · rw [if_pos hlength] at h
    obtain ⟨rfl, rfl⟩ := Prod.mk.inj (Except.ok.inj h)
    have hreads := reads_bytes (data.take n)
    have hmisses := misses_bytes (data.take n)
    rw [hlength] at hreads hmisses
    exact ⟨data.take n, (List.take_append_drop n data).symm, hreads, hmisses⟩
  · rw [if_neg hlength] at h
    exact nomatch h

theorem sequential_u8 : u8.Sequential := (sequential_bytes 1).map _

theorem sequential_u16 : u16.Sequential := (sequential_bytes 2).map _

theorem sequential_u32 : u32.Sequential := (sequential_bytes 4).map _

theorem sequential_u64 : u64.Sequential :=
  sequential_u32.bind fun _ => sequential_u32.map _

/-! ### Tables -/

theorem Sequential.times (hf : f.Sequential) (n : Nat) : (f.times n).Sequential := by
  induction n with
  | zero => exact sequential_pure []
  | succ n ih => exact hf.bind fun _ => ih.map _

theorem Sequential.counted (hf : f.Sequential) : f.counted.Sequential :=
  sequential_u16.bind fun count => hf.times count.toNat

end PackageAudit.Decoder
