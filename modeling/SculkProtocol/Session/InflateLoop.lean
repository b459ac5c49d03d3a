import SculkProtocol.Session.Compression

/-!
# The loop of `zlib::decompress`

`inflate` is called with an empty chunk until it leaves some of it unused. Nothing is assumed
of it here (`InflateCall`): a call may produce any number of bytes that the chunk has room
for, and return any code.

Every round but the last adds a whole chunk, and a round that would exceed the limit is the
last. From this come the number of calls and the size of the output (`decompress_bounded`).
With an `inflate` that delivers a buffer, the loop is the `decompress` of
`Session.Compression` (`decompress_delivers`).
-/

namespace SculkProtocol
namespace compression
namespace zlib

def ZLIB_STREAM_CHUNK : ℕ := 65536

def Z_STREAM_END : ℤ := 1

def Z_DATA_ERROR : ℤ := -3

def Z_MEM_ERROR : ℤ := -4

/-- A call of `inflate`: what it returns, and what it puts into the chunk. -/
structure InflateCall where
  ret : ℤ
  produced : Bytes
  produced_le : produced.length ≤ ZLIB_STREAM_CHUNK

/-- What is there after the loop, with the number of calls. -/
structure LoopResult where
  ret : ℤ
  output : Bytes
  calls : ℕ

/-- The loop after so many calls, with the output so far. `inflate` gives each call. -/
def inflateLoop (inflate : ℕ → InflateCall) (calls : ℕ) (output : Bytes) : LoopResult :=
  let call := inflate calls
  if call.ret = Z_DATA_ERROR ∨ call.ret = Z_MEM_ERROR then ⟨call.ret, output, calls + 1⟩
  else if output.length + call.produced.length > MAX_DECOMPRESSED_SIZE then
    ⟨Z_MEM_ERROR, output, calls + 1⟩
  else if call.produced.length = ZLIB_STREAM_CHUNK then
    -- `avail_out` is 0
    inflateLoop inflate (calls + 1) (output ++ call.produced)
  else ⟨call.ret, output ++ call.produced, calls + 1⟩
termination_by MAX_DECOMPRESSED_SIZE - output.length
decreasing_by
  rename_i hfits hfull
  have hchunk : ZLIB_STREAM_CHUNK = 65536 := rfl
  have hlength : (output ++ (inflate calls).produced).length =
      output.length + ZLIB_STREAM_CHUNK := by
    rw [List.length_append]
    exact congrArg (output.length + ·) hfull
  rw [hfull] at hfits
  omega

/-- `decompress`; `initialized` is whether `inflateInit2` succeeds. -/
def decompressWith (initialized : Bool) (inflate : ℕ → InflateCall) : Except String Bytes :=
  if initialized then
    let r := inflateLoop inflate 0 []
    if r.ret = Z_STREAM_END then .ok r.output else .error "Failed to decompress data"
  else .error "Failed to initialize zlib decompression"

/-! ### Rounds -/

variable {inflate : ℕ → InflateCall} {calls : ℕ} {output : Bytes}

/-- The bytes that the calls from one on to before another have produced. -/
def producedBetween (inflate : ℕ → InflateCall) (first last : ℕ) : Bytes :=
  (List.range' first (last - first)).flatMap fun i => (inflate i).produced

/-- No calls produce nothing. -/
theorem producedBetween_self : producedBetween inflate calls calls = [] := by
  rw [producedBetween, Nat.sub_self]
  rfl

/-- One call produces, and then the others. -/
theorem producedBetween_cons {last : ℕ} (h : calls < last) :
    producedBetween inflate calls last = (inflate calls).produced ++
      producedBetween inflate (calls + 1) last := by
  obtain ⟨n, rfl⟩ := Nat.exists_eq_add_of_lt h
  rw [producedBetween, producedBetween, show calls + n + 1 - calls = n + 1 by omega,
    show calls + n + 1 - (calls + 1) = n by omega, List.range'_succ, List.flatMap_cons]

/-- How the loop ends, from any round on. -/
structure Ends (inflate : ℕ → InflateCall) (calls : ℕ) (output : Bytes) (r : LoopResult) :
    Prop where
  calls_lt : calls < r.calls
  /-- every round but the last adds a chunk -/
  calls_le : (r.calls - calls - 1) * ZLIB_STREAM_CHUNK + output.length ≤ MAX_DECOMPRESSED_SIZE
  output_le : r.output.length ≤ MAX_DECOMPRESSED_SIZE
  success : r.ret = Z_STREAM_END →
    (inflate (r.calls - 1)).ret = Z_STREAM_END ∧
    r.output = output ++ producedBetween inflate calls r.calls

/-- The loop ends in one of its ways. -/
theorem inflateLoop_ends (h : output.length ≤ MAX_DECOMPRESSED_SIZE) :
    Ends inflate calls output (inflateLoop inflate calls output) := by
  fun_induction inflateLoop inflate calls output with
  | case1 calls output call herror =>
    refine ⟨Nat.lt_succ_self _, by simpa using h, h, fun hend => ?_⟩
    rcases herror with herror | herror <;> exact absurd (herror.symm.trans hend) (by decide)
  | case2 calls output call _ hlarge =>
    have hcode : Z_MEM_ERROR ≠ Z_STREAM_END := by decide
    exact ⟨Nat.lt_succ_self _, by simpa using h, h, fun hend => absurd hend hcode⟩
  | case3 calls output call _ hfits hfull ih =>
    have hlength : (output ++ call.produced).length = output.length + ZLIB_STREAM_CHUNK := by
      rw [List.length_append, hfull]
    have hends := ih (by rw [List.length_append]; omega)
    have hlt := hends.calls_lt
    refine ⟨by omega, ?_, hends.output_le, fun hend => ?_⟩
    · -- one more chunk, and one more call
      have hle := hends.calls_le
      rw [hlength] at hle
      generalize (inflateLoop inflate (calls + 1) (output ++ call.produced)).calls =
        last at hlt hle ⊢
      obtain ⟨n, rfl⟩ := Nat.exists_eq_add_of_lt hlt
      have hn : calls + 1 + n + 1 - (calls + 1) - 1 = n := by omega
      have hn' : calls + 1 + n + 1 - calls - 1 = n + 1 := by omega
      rw [hn] at hle
      rw [hn', Nat.succ_mul]
      omega
    · obtain ⟨hret, houtput⟩ := hends.success hend
      rw [houtput, @producedBetween_cons inflate calls _ (by omega), List.append_assoc]
      exact ⟨hret, rfl⟩
  | case4 calls output call _ hfits _ =>
    refine ⟨Nat.lt_succ_self _, by simpa using h, ?_, fun hend => ⟨hend, ?_⟩⟩
    · rw [List.length_append]
      omega
    · rw [producedBetween_cons (Nat.lt_succ_self _), producedBetween_self, List.append_nil]

/-- **The loop is bounded.** It ends after at most 1025 calls with at most 64 MiB of output;
and it succeeds only after a call that has returned `Z_STREAM_END`, with what all calls have
produced. -/
theorem decompress_bounded (initialized : Bool) (inflate : ℕ → InflateCall) :
    (inflateLoop inflate 0 []).calls ≤ 1025 ∧
      (inflateLoop inflate 0 []).output.length ≤ 64 * 1024 * 1024 ∧
      ∀ out, decompressWith initialized inflate = .ok out →
        (inflate ((inflateLoop inflate 0 []).calls - 1)).ret = Z_STREAM_END ∧
          out = (List.range (inflateLoop inflate 0 []).calls).flatMap fun i =>
            (inflate i).produced := by
  have hends := @inflateLoop_ends inflate 0 [] (Nat.zero_le _)
  refine ⟨?_, hends.output_le, fun out hout => ?_⟩
  · -- every call but the last adds a chunk of output, and there are 1024 chunks in 64 MiB
    have hle := hends.calls_le
    have hchunk : ZLIB_STREAM_CHUNK = 65536 := rfl
    have hmax : MAX_DECOMPRESSED_SIZE = 1024 * 65536 := rfl
    rw [List.length_nil, Nat.add_zero, hchunk, hmax] at hle
    have := Nat.le_of_mul_le_mul_right hle (by decide)
    omega
  · unfold decompressWith at hout
    split at hout
    · simp only at hout
      split at hout
      · next hend =>
        obtain ⟨hret, houtput⟩ := hends.success hend
        rw [← Except.ok.inj hout, houtput, List.nil_append, producedBetween, Nat.sub_zero,
          List.range_eq_range']
        exact ⟨hret, rfl⟩
      · exact absurd hout nofun
    · exact absurd hout nofun

/-- Two bytes, and the end of the stream. -/
def twoBytes (_ : ℕ) : InflateCall := ⟨Z_STREAM_END, [1, 2], by decide⟩

/-- One call that produces two bytes. -/
theorem inflateLoop_twoBytes : inflateLoop twoBytes 0 [] = ⟨Z_STREAM_END, [1, 2], 1⟩ := by
  rw [inflateLoop]
  rfl

/-- Two bytes are decompressed. -/
theorem decompress_bounded_twoBytes :
    decompressWith true twoBytes = .ok [1, 2] ∧ (inflateLoop twoBytes 0 []).calls ≤ 1025 ∧
      (twoBytes ((inflateLoop twoBytes 0 []).calls - 1)).ret = Z_STREAM_END := by
  obtain ⟨hcalls, -, hsuccess⟩ := decompress_bounded true twoBytes
  have hok : decompressWith true twoBytes = .ok [1, 2] := by
    rw [decompressWith, if_pos rfl, inflateLoop_twoBytes]
    exact if_pos rfl
  exact ⟨hok, hcalls, (hsuccess _ hok).1⟩

/-! ### An `inflate` that delivers a buffer -/

/-- The calls give the buffer in whole chunks, and the last call the rest of it with
`Z_STREAM_END`. -/
structure Delivers (inflate : ℕ → InflateCall) (out : Bytes) (last : ℕ) : Prop where
  full : ∀ i < last, (inflate i).produced.length = ZLIB_STREAM_CHUNK ∧
    (inflate i).ret ≠ Z_DATA_ERROR ∧ (inflate i).ret ≠ Z_MEM_ERROR
  rest : (inflate last).produced.length < ZLIB_STREAM_CHUNK ∧ (inflate last).ret = Z_STREAM_END
  out : producedBetween inflate 0 (last + 1) = out

/-- The loop in the middle of such a delivery. -/
theorem inflateLoop_delivers {last : ℕ} (hcalls : calls ≤ last)
    (hfull : ∀ i < last, (inflate i).produced.length = ZLIB_STREAM_CHUNK ∧
      (inflate i).ret ≠ Z_DATA_ERROR ∧ (inflate i).ret ≠ Z_MEM_ERROR)
    (hrest : (inflate last).produced.length < ZLIB_STREAM_CHUNK ∧
      (inflate last).ret = Z_STREAM_END) :
    let out := output ++ producedBetween inflate calls (last + 1)
    if out.length > MAX_DECOMPRESSED_SIZE then (inflateLoop inflate calls output).ret = Z_MEM_ERROR
    else (inflateLoop inflate calls output).ret = Z_STREAM_END ∧
        (inflateLoop inflate calls output).output = out := by
  simp only
  fun_induction inflateLoop inflate calls output with
  | case1 calls output call herror =>
    -- an error ends the loop; none of these calls has one
    rcases Nat.lt_or_eq_of_le hcalls with hlt | rfl
    · exact absurd herror (not_or.mpr (hfull calls hlt).2)
    · rcases herror with herror | herror <;> exact absurd (herror.symm.trans hrest.2) (by decide)
  | case2 calls output call _ hlarge =>
    -- too much output, of this call already
    have hlarge : output.length + (inflate calls).produced.length > MAX_DECOMPRESSED_SIZE := hlarge
    rw [if_pos]
    rw [producedBetween_cons (Nat.lt_succ_of_le hcalls), List.length_append, List.length_append]
    omega
  | case3 calls output call _ _ hchunk ih =>
    rcases Nat.lt_or_eq_of_le hcalls with hlt | rfl
    · -- a full chunk: the loop goes on
      rw [producedBetween_cons (Nat.lt_succ_of_le hcalls), ← List.append_assoc]
      exact ih hlt
    · exact absurd hchunk (Nat.ne_of_lt hrest.1)
  | case4 calls output call _ hfits hpartial =>
    rcases Nat.lt_or_eq_of_le hcalls with hlt | rfl
    · -- a chunk that is not full is the last one
      exact absurd (hfull calls hlt).1 hpartial
    · rw [producedBetween_cons (Nat.lt_succ_self _), producedBetween_self, List.append_nil, if_neg]
      · exact ⟨hrest.2, rfl⟩
      · rw [List.length_append]
        omega

/-- **The loop computes `decompress`**: with calls that deliver what `inflate` makes of the
whole input, the two agree. -/
theorem decompress_delivers {L : Codecs} {input out : Bytes} {last : ℕ}
    (hinflate : L.inflate (availIn input) = some out) (h : Delivers inflate out last) :
    decompressWith true inflate = decompress L input := by
  have hloop := @inflateLoop_delivers inflate 0 [] last (Nat.zero_le last) h.full h.rest
  rw [List.nil_append, h.out] at hloop
  rw [decompressWith, if_pos rfl, decompress, hinflate]
  simp only at hloop ⊢
  by_cases hlarge : out.length > MAX_DECOMPRESSED_SIZE
  · rw [if_pos hlarge] at hloop
    rw [if_pos hlarge, hloop, if_neg (by decide)]
  · rw [if_neg hlarge] at hloop
    rw [if_neg hlarge, if_pos hloop.1, hloop.2]

end zlib
end compression
end SculkProtocol
