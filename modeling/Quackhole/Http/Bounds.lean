import Quackhole.Http.Response

/-!
# Positions in a response

The parser computes positions with machine integers and takes slices at them.  Here
every addition, subtraction and slice of it can fail, and none does: a byte slice is no
longer than `isize::MAX`, which leaves room for the few bytes that are added to a
position in it.  The chunk loop is run one iteration at a time.
-/

namespace Quackhole.Http

open Quackhole.Word
open Quackhole.Compress

/-! ## Arithmetic and slices that can fail -/

/-- What makes a Rust program panic here. -/
inductive Fault where
  /-- An addition or a subtraction leaves the range of `usize`. -/
  | overflow
  /-- A slice is not in range. -/
  | outOfRange
deriving DecidableEq

/-- `a + b` in `usize`. -/
def addUsize (bits a b : Nat) : Except Fault Nat :=
  if a + b < usizeLimit bits then .ok (a + b) else .error .overflow

/-- `a - b` in `usize`. -/
def subUsize (a b : Nat) : Except Fault Nat :=
  if b ≤ a then .ok (a - b) else .error .overflow

/-- `&bytes[start..stop]`. -/
def slice (bytes : Bytes) (start stop : Nat) : Except Fault Bytes :=
  if start ≤ stop ∧ stop ≤ bytes.length then .ok ((bytes.take stop).drop start)
  else .error .outOfRange

/-- `isize::MAX`, for a pointer of that many bits. -/
def isizeMax (bits : Nat) : Nat :=
  Nat.pow 2 (bits - 1) - 1

/-- A byte slice, which the language keeps no longer than `isize::MAX`. -/
structure ByteSlice (bits : Nat) where
  bytes : Bytes
  fits : bytes.length ≤ isizeMax bits

theorem addUsize_eq_ok {bits a b : Nat} (small : a + b < usizeLimit bits) :
    addUsize bits a b = .ok (a + b) :=
  if_pos small

theorem subUsize_eq_ok {a b : Nat} (small : b ≤ a) : subUsize a b = .ok (a - b) :=
  if_pos small

theorem slice_eq_ok {bytes : Bytes} {start stop : Nat} (ordered : start ≤ stop)
    (inside : stop ≤ bytes.length) : slice bytes start stop = .ok ((bytes.take stop).drop start) :=
  if_pos ⟨ordered, inside⟩

/-- `&bytes[start..]`. -/
theorem slice_length {bytes : Bytes} {start : Nat} (inside : start ≤ bytes.length) :
    slice bytes start bytes.length = .ok (bytes.drop start) := by
  rw [slice_eq_ok inside (Nat.le_refl _), List.take_length]

/-- `&bytes[start..start + count]`. -/
theorem slice_add {bytes : Bytes} {start count : Nat} (inside : start + count ≤ bytes.length) :
    slice bytes start (start + count) = .ok ((bytes.drop start).take count) := by
  rw [slice_eq_ok (Nat.le_add_right _ _) inside, List.drop_take, Nat.add_sub_cancel_left]

theorem drop_min_length (bytes : Bytes) (count : Nat) :
    bytes.drop (min count bytes.length) = bytes.drop count := by
  rcases Nat.le_total count bytes.length with inside | beyond
  · rw [Nat.min_eq_left inside]
  · rw [Nat.min_eq_right beyond, List.drop_length, List.drop_eq_nil_of_le beyond]

/-- Past the end of a slice that is not empty there is room for two more. -/
theorem add_two_lt_usizeLimit {bits length : Nat} (fits : length ≤ isizeMax bits)
    (positive : 0 < length) : length + 2 < usizeLimit bits := by
  cases bits with
  | zero => simp only [isizeMax, Nat.zero_sub, Nat.pow_eq, Nat.pow_zero] at fits; omega
  | succ bits =>
      simp only [isizeMax, usizeLimit, Nat.add_sub_cancel, Nat.pow_eq, Nat.pow_succ] at fits ⊢
      omega

/-! ## The chunk loop -/

/-- What one iteration comes to. -/
inductive Iteration where
  | returned (result : Except ParseError Bytes)
  | next (out : Bytes) (pos : Nat)

/-- One iteration of the loop of `decode_chunked`. -/
def iterateChunk (bits : Nat) (data out : Bytes) (pos : Nat) : Except Fault Iteration :=
  if pos < data.length then
    (slice data pos data.length).bind fun rest =>
    match findWord (utf8 crlf) rest with
    | none => .ok (.returned (.error .unterminatedSizeLine))
    | some lineEnd =>
        (addUsize bits pos lineEnd).bind fun stop =>
        (slice data pos stop).bind fun sizeLine =>
        match parseUnsigned 16 (usizeLimit bits) (chunkSizeText sizeLine) with
        | none => .ok (.returned (.error (.badChunkSize (chunkSizeText sizeLine))))
        | some chunkSize =>
            (addUsize bits lineEnd 2).bind fun skipped =>
            (addUsize bits pos skipped).bind fun pos =>
            if chunkSize = 0 then .ok (.returned (.ok out))
            else
              (subUsize data.length pos).bind fun left =>
              if chunkSize > left then .ok (.returned (.error .chunkPastEnd))
              else
                (addUsize bits pos chunkSize).bind fun stop =>
                (slice data pos stop).bind fun chunk =>
                (addUsize bits pos chunkSize).bind fun pos =>
                (addUsize bits pos 2).bind fun next =>
                .ok (.next (out ++ chunk) (min next data.length))
  else .ok (.returned (.error .missingLastChunk))

/-- `decode_chunked` from a position on, when it may make so many iterations; without a
result when these are not enough. -/
def decodeChunkedFrom (bits : Nat) (data : Bytes) :
    Nat → Bytes → Nat → Except Fault (Option (Except ParseError Bytes))
  | 0, _, _ => .ok none
  | fuel + 1, out, pos =>
      (iterateChunk bits data out pos).bind fun iteration =>
        match iteration with
        | .returned result => .ok (some result)
        | .next out pos => decodeChunkedFrom bits data fuel out pos

/-- What an iteration has to do with the chunks that are left, and how far it gets. -/
inductive Iterated (bits : Nat) (data out : Bytes) (pos : Nat) : Iteration → Prop where
  | returned {result : Except ParseError Bytes}
      (same : decodeChunks bits out (data.drop pos) = result)
      (collected : ∀ body, result = .ok body → body = out) :
      Iterated bits data out pos (.returned result)
  | next {out' : Bytes} {pos' : Nat}
      (same : decodeChunks bits out (data.drop pos) = decodeChunks bits out' (data.drop pos'))
      (further : pos < pos') (inside : pos' ≤ data.length)
      (collected : out'.length ≤ out.length + (pos' - pos)) :
      Iterated bits data out pos (.next out' pos')

/-- An iteration does not fault, and either returns or moves on. -/
theorem exists_iterated {bits : Nat} (data : ByteSlice bits) (out : Bytes) (pos : Nat) :
    ∃ iteration, iterateChunk bits data.bytes out pos = .ok iteration ∧
      Iterated bits data.bytes out pos iteration := by
  rcases data with ⟨data, fits⟩
  dsimp only
  by_cases more : pos < data.length
  · have room := add_two_lt_usizeLimit fits (Nat.zero_lt_of_lt more)
    have nonempty : data.drop pos ≠ [] := by
      rw [← List.length_pos_iff, List.length_drop]
      omega
    rw [iterateChunk, if_pos more, slice_length (Nat.le_of_lt more)]
    dsimp only [Except.bind]
    cases found : findWord (utf8 crlf) (data.drop pos) with
    | none =>
        refine ⟨_, rfl, .returned ?_ (by rintro _ ⟨⟩)⟩
        rw [decodeChunks, dif_pos nonempty, found]
    | some lineEnd =>
        have bound := ((findWord_eq_some_iff (by simp)).mp found).1.add_length_le (by simp)
        rw [utf8_crlf, List.length_drop, List.length_cons, List.length_cons, List.length_nil]
          at bound
        dsimp only
        rw [addUsize_eq_ok (by omega)]
        dsimp only
        rw [slice_add (by omega)]
        dsimp only
        cases parsed : parseUnsigned 16 (usizeLimit bits)
            (chunkSizeText ((data.drop pos).take lineEnd)) with
        | none =>
            refine ⟨_, rfl, .returned ?_ (by rintro _ ⟨⟩)⟩
            rw [decodeChunks, dif_pos nonempty, found]
            dsimp only
            rw [parsed]
        | some size =>
            have first : FirstChunk bits (data.drop pos) lineEnd size := ⟨found, parsed⟩
            have after : (data.drop pos).drop (lineEnd + 2) = data.drop (pos + (lineEnd + 2)) :=
              List.drop_drop
            dsimp only
            rw [addUsize_eq_ok (by omega)]
            dsimp only
            rw [addUsize_eq_ok (by omega)]
            dsimp only
            by_cases last : size = 0
            · rw [if_pos last]
              refine ⟨_, rfl, .returned ?_ fun body same => (Except.ok.inj same).symm⟩
              rw [decodeChunks_of_firstChunk first, if_pos last]
            · rw [if_neg last, subUsize_eq_ok (by omega)]
              dsimp only
              by_cases long : size > data.length - (pos + (lineEnd + 2))
              · rw [if_pos long]
                refine ⟨_, rfl, .returned ?_ (by rintro _ ⟨⟩)⟩
                rw [decodeChunks_of_firstChunk first, if_neg last, after, List.length_drop,
                  if_pos long]
              · rw [if_neg long, addUsize_eq_ok (by omega)]
                dsimp only
                rw [slice_add (by omega)]
                dsimp only
                rw [addUsize_eq_ok (by omega)]
                refine ⟨_, rfl, .next ?_ (by omega) (Nat.min_le_right _ _) ?_⟩
                · rw [decodeChunks_of_firstChunk first, if_neg last, after, List.length_drop,
                    if_neg long, List.drop_drop, List.drop_drop, drop_min_length,
                    Nat.add_assoc _ size 2]
                · rw [List.length_append, List.length_take, List.length_drop]
                  omega
  · rw [iterateChunk, if_neg more]
    refine ⟨_, rfl, .returned ?_ (by rintro _ ⟨⟩)⟩
    rw [List.drop_eq_nil_of_le (Nat.le_of_not_lt more), decodeChunks, dif_neg (by simp)]

/-- With an iteration for every byte that is left and one more, the loop comes to its
result, which is that of the decoder, and has collected no more than was left. -/
theorem decodeChunkedFrom_eq {bits : Nat} (data : ByteSlice bits) {fuel : Nat} {out : Bytes}
    {pos : Nat} (inside : pos ≤ data.bytes.length) (enough : data.bytes.length - pos < fuel) :
    decodeChunkedFrom bits data.bytes fuel out pos =
        .ok (some (decodeChunks bits out (data.bytes.drop pos))) ∧
      ∀ body, decodeChunks bits out (data.bytes.drop pos) = .ok body →
        body.length ≤ out.length + (data.bytes.length - pos) := by
  induction fuel generalizing out pos with
  | zero => omega
  | succ fuel ih =>
      rcases exists_iterated data out pos with ⟨iteration, ran, iterated⟩
      rw [decodeChunkedFrom, ran]
      cases iterated with
      | returned same collected =>
          refine ⟨by rw [same]; rfl, fun body decoded => ?_⟩
          rw [collected body (same.symm.trans decoded)]
          exact Nat.le_add_right _ _
      | next same further still collected =>
          rcases ih still (by omega) with ⟨result, bound⟩
          refine ⟨by rw [same]; exact result, fun body decoded => ?_⟩
          have most := bound body (same.symm.trans decoded)
          omega

/-- `decode_chunked`. -/
def decodeChunkedAt (bits fuel : Nat) (data : Bytes) :
    Except Fault (Option (Except ParseError Bytes)) :=
  decodeChunkedFrom bits data fuel [] 0

theorem decodeChunkedAt_eq {bits fuel : Nat} (data : ByteSlice bits)
    (enough : data.bytes.length < fuel) :
    decodeChunkedAt bits fuel data.bytes = .ok (some (decodeChunks bits [] data.bytes)) :=
  (decodeChunkedFrom_eq data (Nat.zero_le _) enough).1

/-- What is decoded is no longer than the data. -/
theorem length_le_of_decodeChunks {bits : Nat} (data : ByteSlice bits) {body : Bytes}
    (decoded : decodeChunks bits [] data.bytes = .ok body) : body.length ≤ data.bytes.length := by
  have bound := (decodeChunkedFrom_eq data (Nat.zero_le _) (Nat.lt_succ_self _)).2 body decoded
  simpa using bound

/-! ## The response -/

/-- The body, out of the bytes that follow the head. -/
def readBodyAt (bits fuel : Nat) (expectBody : Bool) (headers : List (Text × Text))
    (rest : Bytes) : Except Fault (Option (Except ParseError Bytes)) :=
  if !expectBody then .ok (some (.ok []))
  else if isChunked headers then decodeChunkedAt bits fuel rest
  else
    match promisedLength bits headers with
    | some len =>
        if len > rest.length then .ok (some (.error (.shortBody len rest.length)))
        else (slice rest 0 len).bind fun body => .ok (some (.ok body))
    | none => .ok (some (.ok rest))

/-- `parse_response`. -/
def parseResponseAt (bits fuel : Nat) (bytes : Bytes) (expectBody : Bool) :
    Except Fault (Option (Except ParseError Response)) :=
  match findWord headTerminator bytes with
  | none => .ok (some (.error .noHeaderTerminator))
  | some split =>
      (slice bytes 0 split).bind fun head =>
      (addUsize bits split 4).bind fun start =>
      (slice bytes start bytes.length).bind fun rest =>
      (readBodyAt bits fuel expectBody (parseHead head).headers rest).bind fun body =>
      .ok (body.map fun result => result.map fun body => { parseHead head with body })

theorem readBodyAt_eq {bits fuel : Nat} {expectBody : Bool} {headers : List (Text × Text)}
    (rest : ByteSlice bits) (enough : rest.bytes.length < fuel) :
    readBodyAt bits fuel expectBody headers rest.bytes =
      .ok (some (readBody bits expectBody headers rest.bytes)) := by
  rw [readBodyAt, readBody]
  split
  · rfl
  · split
    · exact decodeChunkedAt_eq rest enough
    · cases promisedLength bits headers with
      | none => rfl
      | some len =>
          dsimp only
          split
          · rfl
          · rename_i fits
            rw [slice_eq_ok (Nat.zero_le _) (Nat.le_of_not_lt fits), List.drop_zero]
            rfl

theorem length_le_of_readBody {bits : Nat} {expectBody : Bool} {headers : List (Text × Text)}
    (rest : ByteSlice bits) {body : Bytes}
    (read : readBody bits expectBody headers rest.bytes = .ok body) :
    body.length ≤ rest.bytes.length := by
  rw [readBody] at read
  split at read
  · cases read
    exact Nat.zero_le _
  · split at read
    · exact length_le_of_decodeChunks rest read
    · split at read
      · split at read
        · cases read
        · cases read
          exact List.length_take_le' _ _
      · cases read
        exact Nat.le_refl _

/-- What follows the head is a byte slice. -/
def ByteSlice.drop {bits : Nat} (data : ByteSlice bits) (count : Nat) : ByteSlice bits where
  bytes := data.bytes.drop count
  fits := by
    rw [List.length_drop]
    exact (Nat.sub_le _ _).trans data.fits

/-- The parser does not fault, and is the parser that takes its slices without fail. -/
theorem parseResponseAt_eq {bits fuel : Nat} (data : ByteSlice bits) (expectBody : Bool)
    (enough : data.bytes.length < fuel) :
    parseResponseAt bits fuel data.bytes expectBody =
      .ok (some (parseResponse bits data.bytes expectBody)) := by
  rw [parseResponseAt, parseResponse]
  cases found : findWord headTerminator data.bytes with
  | none => rfl
  | some split =>
      have bound := ((findWord_eq_some_iff headTerminator_ne_nil).mp found).1.add_length_le
        headTerminator_ne_nil
      have four : headTerminator.length = 4 := rfl
      rw [four] at bound
      have room := add_two_lt_usizeLimit data.fits (by omega)
      have shorter : (data.drop (split + 4)).bytes.length < fuel := by
        refine Nat.lt_of_le_of_lt ?_ enough
        rw [ByteSlice.drop, List.length_drop]
        exact Nat.sub_le _ _
      have head : slice data.bytes 0 split = .ok (data.bytes.take split) :=
        slice_eq_ok (Nat.zero_le _) (by omega)
      have start : addUsize bits split 4 = .ok (split + 4) := addUsize_eq_ok (by omega)
      have rest : slice data.bytes (split + 4) data.bytes.length =
          .ok (data.drop (split + 4)).bytes := slice_length bound
      dsimp only
      rw [head]
      dsimp only [Except.bind]
      rw [start]
      dsimp only
      rw [rest]
      dsimp only
      rw [readBodyAt_eq _ shorter]
      rfl

/-- Parsing is safe and comes to its end: no addition, subtraction or slice of it fails,
with an iteration for every byte and one more it has a result, every iteration moves on
inside the data, and the body is no longer than the input. -/
theorem parse_safe {bits : Nat} (input : ByteSlice bits) (expectBody : Bool) :
    (∀ fuel, input.bytes.length < fuel →
      parseResponseAt bits fuel input.bytes expectBody =
          .ok (some (parseResponse bits input.bytes expectBody)) ∧
        decodeChunkedAt bits fuel input.bytes = .ok (some (decodeChunks bits [] input.bytes))) ∧
      (∀ out pos, ∃ iteration, iterateChunk bits input.bytes out pos = .ok iteration ∧
        ∀ out' pos', iteration = .next out' pos' → pos < pos' ∧ pos' ≤ input.bytes.length) ∧
      (∀ response, parseResponse bits input.bytes expectBody = .ok response →
        response.body.length ≤ input.bytes.length) ∧
      ∀ body, decodeChunks bits [] input.bytes = .ok body →
        body.length ≤ input.bytes.length := by
  refine ⟨fun fuel enough => ?_, fun out pos => ?_, fun response parsed => ?_, fun body => ?_⟩
  · exact ⟨parseResponseAt_eq input expectBody enough, decodeChunkedAt_eq input enough⟩
  · rcases exists_iterated input out pos with ⟨iteration, ran, iterated⟩
    refine ⟨iteration, ran, ?_⟩
    rintro out' pos' rfl
    cases iterated with
    | next same further inside collected => exact ⟨further, inside⟩
  · rcases parseResponse_eq_ok_iff.mp parsed with ⟨split, body, -, read, rfl⟩
    have bound := length_le_of_readBody (input.drop (split + 4)) read
    rw [ByteSlice.drop, List.length_drop] at bound
    exact bound.trans (Nat.sub_le _ _)
  · exact length_le_of_decodeChunks input

/-- One chunk of one byte. -/
def oneChunk : ByteSlice 64 :=
  ⟨utf8 "1\r\nA\r\n0\r\n".toList, by decide +kernel⟩

theorem parse_safe_oneChunk :
    parseResponseAt 64 10 oneChunk.bytes true =
        .ok (some (parseResponse 64 oneChunk.bytes true)) ∧
      ∃ body, decodeChunks 64 [] oneChunk.bytes = .ok body ∧
        body.length ≤ oneChunk.bytes.length := by
  have safe := parse_safe oneChunk true
  have enough : oneChunk.bytes.length < 10 := by decide
  have ran : decodeChunkedAt 64 10 oneChunk.bytes = .ok (some (.ok [65])) := by decide +kernel
  rcases safe.1 10 enough with ⟨response, decoded⟩
  have body : decodeChunks 64 [] oneChunk.bytes = .ok [65] := by
    rw [ran] at decoded
    exact (Option.some.inj (Except.ok.inj decoded)).symm
  exact ⟨response, [65], body, safe.2.2.2 [65] body⟩

end Quackhole.Http
