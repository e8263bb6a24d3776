/-!
UTF-8. Decoding reads the longest valid text and names the fault that stops it: a sequence
that no continuation can mend, with the length of its longest valid part, or a text that ends
inside a sequence that could still become valid. The lossy reading puts one U+FFFD for each
such part.
-/
namespace GitHistory.Text

/-- Bytes of a text. -/
def utf8 (text : List Char) : List UInt8 :=
  text.flatMap String.utf8EncodeChar

theorem utf8_append (front rest : List Char) : utf8 (front ++ rest) = utf8 front ++ utf8 rest :=
  List.flatMap_append

theorem utf8_injective {a b : List Char} (same : utf8 a = utf8 b) : a = b := by
  have bytes : (String.ofList a).toByteArray = (String.ofList b).toByteArray :=
    congrArg List.toByteArray same
  exact String.ofList_injective (String.toByteArray_inj.1 bytes)

/-- Number of bytes of a text. -/
def utf8Size : List Char → Nat
  | [] => 0
  | c :: rest => c.utf8Size + utf8Size rest

/-- What stands at the front of a byte sequence. -/
inductive Utf8Front where
  | char (c : Char) (rest : List UInt8)
  | invalid (length : Nat) (rest : List UInt8)
  | incomplete (length : Nat)
  deriving Repr

/-- The values the second byte may take after a given first byte. -/
def secondByteRange (first : UInt8) : UInt8 × UInt8 :=
  if first == 0xE0 then (0xA0, 0xBF)
  else if first == 0xED then (0x80, 0x9F)
  else if first == 0xF0 then (0x90, 0xBF)
  else if first == 0xF4 then (0x80, 0x8F)
  else (0x80, 0xBF)

/-- Number of bytes that a first byte announces, or none if no sequence starts with it. -/
def announcedLength (first : UInt8) : Option Nat :=
  if first < 0x80 then some 1
  else if 0xC2 ≤ first && first ≤ 0xDF then some 2
  else if 0xE0 ≤ first && first ≤ 0xEF then some 3
  else if 0xF0 ≤ first && first ≤ 0xF4 then some 4
  else none

private def isContinuation (b : UInt8) : Bool := 0x80 ≤ b && b ≤ 0xBF

private def payload (b : UInt8) : Nat := b.toNat % 64

/-- Reads one character of a non-empty byte sequence. -/
def utf8Front (first : UInt8) (rest : List UInt8) : Utf8Front :=
  match announcedLength first with
  | none => .invalid 1 rest
  | some 1 => .char (Char.ofNat first.toNat) rest
  | some announced =>
    match rest with
    | [] => .incomplete 1
    | second :: rest₂ =>
      let (low, high) := secondByteRange first
      if second < low || high < second then .invalid 1 rest
      else if announced = 2 then
        .char (Char.ofNat (first.toNat % 32 * 64 + payload second)) rest₂
      else
        match rest₂ with
        | [] => .incomplete 2
        | third :: rest₃ =>
          if !isContinuation third then .invalid 2 rest₂
          else if announced = 3 then
            .char (Char.ofNat ((first.toNat % 16 * 64 + payload second) * 64 + payload third)) rest₃
          else
            match rest₃ with
            | [] => .incomplete 3
            | fourth :: rest₄ =>
              if !isContinuation fourth then .invalid 3 rest₃
              else
                .char (Char.ofNat
                  (((first.toNat % 8 * 64 + payload second) * 64 + payload third) * 64 +
                    payload fourth)) rest₄

/-- Why a byte sequence is not UTF-8, and after how many valid bytes. -/
inductive Utf8Fault where
  | invalid (length : Nat) (index : Nat)
  | incomplete (index : Nat)
  deriving Repr, DecidableEq

def Utf8Fault.message : Utf8Fault → String
  | .invalid length index => s!"invalid utf-8 sequence of {length} bytes from index {index}"
  | .incomplete index => s!"incomplete utf-8 byte sequence from index {index}"

private def decodeFrom (fuel index : Nat) (done : List Char) :
    List UInt8 → Except Utf8Fault (List Char)
  | [] => .ok done.reverse
  | first :: rest =>
    match fuel with
    | 0 => .ok done.reverse
    | fuel + 1 =>
      match utf8Front first rest with
      | .char c rest => decodeFrom fuel (index + c.utf8Size) (c :: done) rest
      | .invalid length _ => .error (.invalid length index)
      | .incomplete _ => .error (.incomplete index)

/-- The text that a byte sequence encodes, or the first fault. -/
def decodeUtf8 (bytes : List UInt8) : Except Utf8Fault String :=
  (decodeFrom bytes.length 0 [] bytes).map String.ofList

private def decodeLossyFrom (fuel : Nat) (done : List Char) : List UInt8 → List Char
  | [] => done.reverse
  | first :: rest =>
    match fuel with
    | 0 => done.reverse
    | fuel + 1 =>
      match utf8Front first rest with
      | .char c rest => decodeLossyFrom fuel (c :: done) rest
      | .invalid _ rest => decodeLossyFrom fuel ('\uFFFD' :: done) rest
      | .incomplete _ => ('\uFFFD' :: done).reverse

/-- Reads every byte sequence as text: each faulty part counts as one U+FFFD. -/
def decodeUtf8Lossy (bytes : List UInt8) : String :=
  String.ofList (decodeLossyFrom bytes.length [] bytes)

/-- The text that a byte sequence encodes, or the empty text if it encodes none. -/
def decodeUtf8OrEmpty (bytes : List UInt8) : String :=
  match decodeUtf8 bytes with
  | .ok text => text
  | .error _ => ""

/-! Reading back what was encoded. -/

theorem announcedLength_eq (first : UInt8) : announcedLength first =
    if first.toNat < 128 then some 1
    else if 194 ≤ first.toNat ∧ first.toNat ≤ 223 then some 2
    else if 224 ≤ first.toNat ∧ first.toNat ≤ 239 then some 3
    else if 240 ≤ first.toNat ∧ first.toNat ≤ 244 then some 4
    else none := by
  simp [announcedLength, UInt8.lt_iff_toNat_lt, UInt8.le_iff_toNat_le]

/-- Whether a byte may be the second one of a sequence. -/
def IsSecond (first second : UInt8) : Prop :=
  (128 ≤ second.toNat ∧ second.toNat ≤ 191) ∧
    (first.toNat = 224 → 160 ≤ second.toNat) ∧ (first.toNat = 240 → 144 ≤ second.toNat) ∧
    (first.toNat = 237 → second.toNat ≤ 159) ∧ (first.toNat = 244 → second.toNat ≤ 143)

theorem secondByteRange_admits {first second : UInt8} (follows : IsSecond first second) :
    (second < (secondByteRange first).1 || (secondByteRange first).2 < second) = false := by
  obtain ⟨continues, afterE0, afterF0, afterED, afterF4⟩ := follows
  rw [secondByteRange]
  simp only [beq_iff_eq, ← UInt8.toNat_inj, UInt8.reduceToNat, Bool.or_eq_false_iff,
    decide_eq_false_iff_not, UInt8.lt_iff_toNat_lt]
  split
  · simp_all
  · split
    · simp_all
    · split
      · simp_all
      · split <;> simp_all

theorem isContinuation_of_range {b : UInt8} (least : 128 ≤ b.toNat) (most : b.toNat ≤ 191) :
    isContinuation b = true := by
  simp [isContinuation, UInt8.le_iff_toNat_le, least, most]

theorem utf8Front_one {first : UInt8} (range : first.toNat < 128) (rest : List UInt8) :
    utf8Front first rest = .char (Char.ofNat first.toNat) rest := by
  have announced : announcedLength first = some 1 := by
    rw [announcedLength_eq, if_pos range]
  simp [utf8Front, announced]

theorem utf8Front_two {first second : UInt8} (range : 194 ≤ first.toNat ∧ first.toNat ≤ 223)
    (follows : IsSecond first second) (rest : List UInt8) :
    utf8Front first (second :: rest) =
      .char (Char.ofNat (first.toNat % 32 * 64 + second.toNat % 64)) rest := by
  have announced : announcedLength first = some 2 := by
    rw [announcedLength_eq, if_neg (by omega), if_pos range]
  simp [utf8Front, announced, secondByteRange_admits follows, payload]

theorem utf8Front_three {first second third : UInt8}
    (range : 224 ≤ first.toNat ∧ first.toNat ≤ 239) (follows : IsSecond first second)
    (continues : isContinuation third = true) (rest : List UInt8) :
    utf8Front first (second :: third :: rest) =
      .char (Char.ofNat ((first.toNat % 16 * 64 + second.toNat % 64) * 64 + third.toNat % 64))
        rest := by
  have announced : announcedLength first = some 3 := by
    rw [announcedLength_eq, if_neg (by omega), if_neg (by omega), if_pos range]
  simp [utf8Front, announced, secondByteRange_admits follows, continues, payload]

theorem utf8Front_four {first second third fourth : UInt8}
    (range : 240 ≤ first.toNat ∧ first.toNat ≤ 244) (follows : IsSecond first second)
    (continues : isContinuation third = true) (ends : isContinuation fourth = true)
    (rest : List UInt8) :
    utf8Front first (second :: third :: fourth :: rest) =
      .char (Char.ofNat
        (((first.toNat % 8 * 64 + second.toNat % 64) * 64 + third.toNat % 64) * 64 +
          fourth.toNat % 64)) rest := by
  have announced : announcedLength first = some 4 := by
    rw [announcedLength_eq, if_neg (by omega), if_neg (by omega), if_neg (by omega),
      if_pos range]
  simp [utf8Front, announced, secondByteRange_admits follows, continues, ends, payload]

/-- A character is read from its bytes, whatever follows them. -/
theorem utf8Front_utf8EncodeChar (c : Char) (rest : List UInt8) :
    ∃ first more, String.utf8EncodeChar c = first :: more ∧
      utf8Front first (more ++ rest) = .char c rest := by
  have valid := c.valid
  simp only [UInt32.isValidChar, Nat.isValidChar] at valid
  have back : Char.ofNat c.val.toNat = c := Char.ofNat_toNat c
  rw [String.utf8EncodeChar]
  generalize c.val.toNat = v at *
  have byte : ∀ n, n < 256 → (UInt8.ofNat n).toNat = n := by
    intro n small
    simpa using small
  by_cases one : v ≤ 127
  · refine ⟨_, _, if_pos one, ?_⟩
    have first := byte v (by omega)
    rw [utf8Front_one (by omega), first, back]
    rfl
  · by_cases two : v ≤ 2047
    · refine ⟨_, _, (if_neg one).trans (if_pos two), ?_⟩
      have first := byte (v / 64 % 32 + 192) (by omega)
      have second := byte (v % 64 + 128) (by omega)
      have follows : IsSecond (UInt8.ofNat (v / 64 % 32 + 192)) (UInt8.ofNat (v % 64 + 128)) := by
        rw [IsSecond, first, second]
        omega
      rw [List.singleton_append, utf8Front_two (by omega) follows, first, second]
      refine congrArg (Utf8Front.char · rest) (Eq.trans ?_ back)
      congr 1
      omega
    · by_cases three : v ≤ 65535
      · refine ⟨_, _, (if_neg one).trans ((if_neg two).trans (if_pos three)), ?_⟩
        have first := byte (v / 4096 % 16 + 224) (by omega)
        have second := byte (v / 64 % 64 + 128) (by omega)
        have third := byte (v % 64 + 128) (by omega)
        have follows : IsSecond (UInt8.ofNat (v / 4096 % 16 + 224))
            (UInt8.ofNat (v / 64 % 64 + 128)) := by
          rw [IsSecond, first, second]
          omega
        rw [List.cons_append, List.singleton_append, utf8Front_three (by omega) follows
          (isContinuation_of_range (by omega) (by omega)), first, second, third]
        refine congrArg (Utf8Front.char · rest) (Eq.trans ?_ back)
        congr 1
        omega
      · refine ⟨_, _, (if_neg one).trans ((if_neg two).trans (if_neg three)), ?_⟩
        have first := byte (v / 262144 % 8 + 240) (by omega)
        have second := byte (v / 4096 % 64 + 128) (by omega)
        have third := byte (v / 64 % 64 + 128) (by omega)
        have fourth := byte (v % 64 + 128) (by omega)
        have follows : IsSecond (UInt8.ofNat (v / 262144 % 8 + 240))
            (UInt8.ofNat (v / 4096 % 64 + 128)) := by
          rw [IsSecond, first, second]
          omega
        rw [List.cons_append, List.cons_append, List.singleton_append,
          utf8Front_four (by omega) follows (isContinuation_of_range (by omega) (by omega))
            (isContinuation_of_range (by omega) (by omega)), first, second, third, fourth]
        refine congrArg (Utf8Front.char · rest) (Eq.trans ?_ back)
        congr 1
        omega

theorem decodeLossyFrom_utf8 (text done : List Char) {fuel : Nat}
    (enough : (utf8 text).length ≤ fuel) :
    decodeLossyFrom fuel done (utf8 text) = done.reverse ++ text := by
  induction text generalizing done fuel with
  | nil => simp [utf8, decodeLossyFrom]
  | cons c rest ih =>
    obtain ⟨first, more, encoded, read⟩ := utf8Front_utf8EncodeChar c (utf8 rest)
    have bytes : utf8 (c :: rest) = first :: (more ++ utf8 rest) := by
      rw [utf8, List.flatMap_cons, encoded]
      rfl
    rw [bytes] at enough ⊢
    cases fuel with
    | zero => simp at enough
    | succ fuel =>
      simp only [List.length_cons, List.length_append] at enough
      rw [decodeLossyFrom, read]
      dsimp only
      rw [ih (c :: done) (by omega)]
      simp

/-- The lossy reading of a text's bytes is the text. -/
theorem decodeUtf8Lossy_utf8 (text : List Char) :
    decodeUtf8Lossy (utf8 text) = String.ofList text := by
  rw [decodeUtf8Lossy, decodeLossyFrom_utf8 text [] (Nat.le_refl _)]
  rfl

/-! What is read was encoded. -/

theorem isSecond_of_admitted {first second : UInt8}
    (admitted : (second < (secondByteRange first).1 || (secondByteRange first).2 < second) = false) :
    IsSecond first second := by
  rw [secondByteRange] at admitted
  simp only [beq_iff_eq, ← UInt8.toNat_inj, UInt8.reduceToNat] at admitted
  rw [IsSecond]
  split at admitted
  · simp [UInt8.lt_iff_toNat_lt] at admitted
    omega
  · split at admitted
    · simp [UInt8.lt_iff_toNat_lt] at admitted
      omega
    · split at admitted
      · simp [UInt8.lt_iff_toNat_lt] at admitted
        omega
      · split at admitted
        · simp [UInt8.lt_iff_toNat_lt] at admitted
          omega
        · simp [UInt8.lt_iff_toNat_lt] at admitted
          omega

theorem isSecond_of_bounds {first second low high : UInt8}
    (bounds : secondByteRange first = (low, high))
    (admitted : ¬ (second < low || high < second) = true) : IsSecond first second := by
  apply isSecond_of_admitted
  rw [bounds]
  exact Bool.eq_false_iff.mpr admitted

theorem range_of_isContinuation {b : UInt8} (continues : isContinuation b = true) :
    128 ≤ b.toNat ∧ b.toNat ≤ 191 := by
  simpa [isContinuation, UInt8.le_iff_toNat_le] using continues

/-- The bytes that a character is read from, and what it is. -/
inductive FrontChar : UInt8 → List UInt8 → Nat → List UInt8 → Prop where
  | one {first : UInt8} {rest : List UInt8} (range : first.toNat < 128) :
      FrontChar first rest first.toNat rest
  | two {first second : UInt8} {rest : List UInt8}
      (range : 194 ≤ first.toNat ∧ first.toNat ≤ 223) (follows : IsSecond first second) :
      FrontChar first (second :: rest) (first.toNat % 32 * 64 + second.toNat % 64) rest
  | three {first second third : UInt8} {rest : List UInt8}
      (range : 224 ≤ first.toNat ∧ first.toNat ≤ 239) (follows : IsSecond first second)
      (continues : 128 ≤ third.toNat ∧ third.toNat ≤ 191) :
      FrontChar first (second :: third :: rest)
        ((first.toNat % 16 * 64 + second.toNat % 64) * 64 + third.toNat % 64) rest
  | four {first second third fourth : UInt8} {rest : List UInt8}
      (range : 240 ≤ first.toNat ∧ first.toNat ≤ 244) (follows : IsSecond first second)
      (continues : 128 ≤ third.toNat ∧ third.toNat ≤ 191)
      (ends : 128 ≤ fourth.toNat ∧ fourth.toNat ≤ 191) :
      FrontChar first (second :: third :: fourth :: rest)
        (((first.toNat % 8 * 64 + second.toNat % 64) * 64 + third.toNat % 64) * 64 +
          fourth.toNat % 64) rest

theorem range_of_announced {first : UInt8} {announced : Nat}
    (known : announcedLength first = some announced) :
    (announced = 1 ∧ first.toNat < 128) ∨
      (announced = 2 ∧ 194 ≤ first.toNat ∧ first.toNat ≤ 223) ∨
      (announced = 3 ∧ 224 ≤ first.toNat ∧ first.toNat ≤ 239) ∨
      (announced = 4 ∧ 240 ≤ first.toNat ∧ first.toNat ≤ 244) := by
  rw [announcedLength_eq] at known
  split at known
  · simp_all
  · split at known
    · simp_all
    · split at known
      · simp_all
      · split at known
        · simp_all
        · cases known

/-- A character that was read stands in front in one of four ways. -/
theorem frontChar_of_utf8Front {first : UInt8} {rest more : List UInt8} {c : Char}
    (read : utf8Front first rest = .char c more) :
    ∃ code, FrontChar first rest code more ∧ c = Char.ofNat code := by
  revert read
  fun_cases utf8Front first rest <;> intro read <;> cases read
  case case2 known =>
    have range := range_of_announced known
    exact ⟨_, .one (by omega), rfl⟩
  case case5 second low high bounds admitted _ known =>
    have range := range_of_announced known
    exact ⟨_, .two (by omega) (isSecond_of_bounds bounds admitted), rfl⟩
  case case8 second low high bounds admitted third continues _ known _ =>
    have range := range_of_announced known
    exact ⟨_, .three (by omega) (isSecond_of_bounds bounds admitted)
      (range_of_isContinuation (by simpa using continues)), rfl⟩
  case case11 announced notOne known second low high bounds admitted notTwo third continues
      notThree fourth ends =>
    have other : announced ≠ 1 := notOne
    have range := range_of_announced known
    exact ⟨_, .four (by omega) (isSecond_of_bounds bounds admitted)
      (range_of_isContinuation (by simpa using continues))
      (range_of_isContinuation (by simpa using ends)), rfl⟩

theorem val_ofNat {code : Nat} (valid : code < 0xD800 ∨ 0xDFFF < code ∧ code < 0x110000) :
    (Char.ofNat code).val.toNat = code := by
  have isValid : code.isValidChar := valid
  rw [Char.ofNat, dif_pos isValid]
  rfl

theorem ofNat_eq {b : UInt8} {n : Nat} (same : b.toNat = n) : UInt8.ofNat n = b := by
  rw [← same]
  exact UInt8.ofNat_toNat

/-- What stands in front are the bytes of the character that is read from it. -/
theorem utf8EncodeChar_of_frontChar {first : UInt8} {rest more : List UInt8} {code : Nat}
    (front : FrontChar first rest code more) :
    String.utf8EncodeChar (Char.ofNat code) ++ more = first :: rest := by
  have head (n : Nat) (same : first.toNat = n) : UInt8.ofNat n = first := ofNat_eq same
  cases front with
  | one range =>
    rw [String.utf8EncodeChar, val_ofNat (by omega), if_pos (by omega), ofNat_eq rfl]
    rfl
  | two range follows =>
    rename_i second
    obtain ⟨continues, -⟩ := follows
    rw [String.utf8EncodeChar, val_ofNat (by omega), if_neg (by omega), if_pos (by omega),
      head _ (by omega), ofNat_eq (show second.toNat = _ by omega)]
    rfl
  | three range follows continues =>
    rename_i second third
    rw [IsSecond] at follows
    rw [String.utf8EncodeChar, val_ofNat (by omega), if_neg (by omega), if_neg (by omega),
      if_pos (by omega), head _ (by omega), ofNat_eq (show second.toNat = _ by omega),
      ofNat_eq (show third.toNat = _ by omega)]
    rfl
  | four range follows continues ends =>
    rename_i second third fourth
    rw [IsSecond] at follows
    rw [String.utf8EncodeChar, val_ofNat (by omega), if_neg (by omega), if_neg (by omega),
      if_neg (by omega), head _ (by omega), ofNat_eq (show second.toNat = _ by omega),
      ofNat_eq (show third.toNat = _ by omega), ofNat_eq (show fourth.toNat = _ by omega)]
    rfl

theorem decodeFrom_utf8 (text done : List Char) {fuel index : Nat}
    (enough : (utf8 text).length ≤ fuel) :
    decodeFrom fuel index done (utf8 text) = .ok (done.reverse ++ text) := by
  induction text generalizing done fuel index with
  | nil => simp [utf8, decodeFrom]
  | cons c rest ih =>
    obtain ⟨first, more, encoded, read⟩ := utf8Front_utf8EncodeChar c (utf8 rest)
    have bytes : utf8 (c :: rest) = first :: (more ++ utf8 rest) := by
      rw [utf8, List.flatMap_cons, encoded]
      rfl
    rw [bytes] at enough ⊢
    cases fuel with
    | zero => simp at enough
    | succ fuel =>
      simp only [List.length_cons, List.length_append] at enough
      rw [decodeFrom, read]
      dsimp only
      rw [ih (c :: done) (by omega)]
      simp

/-- What was decoded is what stood before it and a text that the bytes encode. -/
theorem exists_text_of_decodeFrom {fuel index : Nat} {done text : List Char} {bytes : List UInt8}
    (enough : bytes.length ≤ fuel) (decoded : decodeFrom fuel index done bytes = .ok text) :
    ∃ read, text = done.reverse ++ read ∧ utf8 read = bytes := by
  induction fuel generalizing index done bytes with
  | zero =>
    obtain rfl := List.length_eq_zero_iff.mp (Nat.le_zero.mp enough)
    rw [decodeFrom] at decoded
    cases decoded
    exact ⟨[], (List.append_nil _).symm, rfl⟩
  | succ fuel ih =>
    cases bytes with
    | nil =>
      rw [decodeFrom] at decoded
      cases decoded
      exact ⟨[], (List.append_nil _).symm, rfl⟩
    | cons first rest =>
      rw [decodeFrom] at decoded
      split at decoded
      · rename_i c more front
        obtain ⟨code, inFront, rfl⟩ := frontChar_of_utf8Front front
        have bytes := utf8EncodeChar_of_frontChar inFront
        have shorter : more.length ≤ fuel := by
          have length := congrArg List.length bytes
          have some := String.length_utf8EncodeChar (Char.ofNat code)
          have positive := (Char.ofNat code).utf8Size_pos
          rw [List.length_append, List.length_cons] at length
          rw [List.length_cons] at enough
          omega
        obtain ⟨read, rfl, encodes⟩ := ih shorter decoded
        refine ⟨Char.ofNat code :: read, by simp, ?_⟩
        rw [utf8, List.flatMap_cons, ← bytes, ← encodes, utf8]
      · cases decoded
      · cases decoded

/-- Bytes are decoded to the text that they encode, and others are not decoded at all. -/
theorem decodeUtf8_eq_ok_iff {bytes : List UInt8} {text : String} :
    decodeUtf8 bytes = .ok text ↔ utf8 text.toList = bytes := by
  constructor
  · intro decoded
    rw [decodeUtf8] at decoded
    cases read : decodeFrom bytes.length 0 [] bytes with
    | error fault =>
      rw [read] at decoded
      cases decoded
    | ok chars =>
      rw [read] at decoded
      cases decoded
      obtain ⟨_, rfl, encodes⟩ := exists_text_of_decodeFrom (Nat.le_refl _) read
      rw [String.toList_ofList]
      exact encodes
  · rintro rfl
    rw [decodeUtf8, decodeFrom_utf8 _ _ (Nat.le_refl _)]
    exact congrArg Except.ok String.ofList_toList

/-- Whether bytes encode a text. -/
def IsUtf8 (bytes : List UInt8) : Prop := ∃ text : String, utf8 text.toList = bytes

/-- Of bytes that encode no text nothing is left. -/
theorem decodeUtf8OrEmpty_cases (bytes : List UInt8) :
    utf8 (decodeUtf8OrEmpty bytes).toList = bytes ∨
      ¬ IsUtf8 bytes ∧ decodeUtf8OrEmpty bytes = "" := by
  rw [decodeUtf8OrEmpty]
  cases decoded : decodeUtf8 bytes with
  | ok text => exact Or.inl (decodeUtf8_eq_ok_iff.mp decoded)
  | error fault =>
    refine Or.inr ⟨?_, rfl⟩
    rintro ⟨text, encodes⟩
    rw [decodeUtf8_eq_ok_iff.mpr encodes] at decoded
    cases decoded

end GitHistory.Text
