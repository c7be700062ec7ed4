import AgentWays.Scan.Reduce

/-
  The sentences of a text: the loop cuts it between characters
  alone, and leaves out whitespace alone.

  The loop goes byte by byte. A cut is beside an ASCII byte,
  and the bytes of other characters are none of those.

  Key definitions include:
    * `Scan.Spaced`

  Main declarations:
    * `Scan.sentencesFrom_spec`
    * `Scan.splitSentences_spec`
-/

------------------------------------------------------------
-- Spaced Texts
------------------------------------------------------------

namespace Scan

open RustText (isWhitespace)

/- Whitespace alone. -/
def Blank
    (s : Text) : Prop :=
  ∀ c ∈ s, isWhitespace c = true

/- A text that starts with no whitespace. -/
def StartsBare
    (s : Text) : Prop :=
  ∃ c rest, s = c :: rest ∧ isWhitespace c = false

/-
  Sentences one after another in a text, with whitespace
  alone before, between and after them.
-/
inductive Spaced : List Text → Text → Prop
| nil
    {gap : Text}
    (hGap : Blank gap) :
    Spaced [] gap
| cons
    {gap sentence rest : Text}
    {sentences : List Text}
    (hGap : Blank gap)
    (hSentence : StartsBare sentence)
    (hRest : Spaced sentences rest) :
    Spaced (sentence :: sentences) (gap ++ sentence ++ rest)

namespace Spaced

variable {sentences more : List Text} {s t : Text}

theorem prepend
    {gap : Text}
    (hGap : Blank gap)
    (hSpaced : Spaced sentences s) :
    Spaced sentences (gap ++ s) := by
  have hBoth {first : Text} (hFirst : Blank first) :
      Blank (gap ++ first) := by
    intro c hMem
    rcases List.mem_append.mp hMem with hLeft | hRight
    · exact hGap c hLeft
    · exact hFirst c hRight
  cases hSpaced with
  | nil hFirst => exact Spaced.nil (hBoth hFirst)
  | cons hFirst hSentence hRest =>
      have hCons := Spaced.cons (hBoth hFirst) hSentence hRest
      simpa only [List.append_assoc] using hCons

theorem append
    (hSpaced : Spaced sentences s)
    (hMore : Spaced more t) :
    Spaced (sentences ++ more) (s ++ t) := by
  induction hSpaced with
  | nil hGap => exact hMore.prepend hGap
  | cons hGap hSentence hRest ih =>
      rw [List.append_assoc]
      exact Spaced.cons hGap hSentence ih

theorem startsBare
    (hSpaced : Spaced sentences s) :
    ∀ sentence ∈ sentences, StartsBare sentence := by
  induction hSpaced with
  | nil hGap =>
      intro sentence hMem
      cases hMem
  | cons hGap hSentence hRest ih =>
      intro other hMem
      rcases List.mem_cons.mp hMem with rfl | hLater
      · exact hSentence
      · exact ih other hLater

end Spaced

/- What is left of a text once it is trimmed. -/
theorem trim_split
    (s : Text) :
    ∃ lead trail, s = lead ++ trim s ++ trail ∧ Blank lead ∧
      Blank trail := by
  refine
    ⟨s.takeWhile isWhitespace,
      (s.dropWhile isWhitespace).rtakeWhile isWhitespace, ?_, ?_, ?_⟩
  · unfold trim
    rw [List.append_assoc, List.rdropWhile_append_rtakeWhile,
      List.takeWhile_append_dropWhile]
  · intro c hMem
    exact List.mem_takeWhile_imp hMem
  · intro c hMem
    exact List.mem_rtakeWhile_imp hMem

theorem startsBare_trim
    {s : Text}
    (hNe : trim s ≠ []) :
    StartsBare (trim s) := by
  have hPrefix :
      trim s <+: s.dropWhile isWhitespace :=
    List.rdropWhile_prefix isWhitespace _
  rcases List.exists_cons_of_ne_nil hNe with ⟨c, rest, hCons⟩
  rcases hPrefix with ⟨tail, hSplit⟩
  rw [hCons] at hSplit
  have hHead :=
    List.head?_dropWhile_not isWhitespace s
  rw [← hSplit] at hHead
  exact ⟨c, rest, hCons, by simpa using hHead⟩

theorem spaced_trim
    (s : Text) :
    Spaced (if (trim s).isEmpty then [] else [trim s]) s := by
  rcases trim_split s with ⟨lead, trail, hSplit, hLead, hTrail⟩
  cases hTrim : (trim s).isEmpty with
  | true =>
      rw [List.isEmpty_iff.mp hTrim, List.append_nil] at hSplit
      rw [hSplit]
      exact (Spaced.nil hTrail).prepend hLead
  | false =>
      have hBare :=
        startsBare_trim (s := s) (by simpa using hTrim)
      have hOne := Spaced.cons hLead hBare (Spaced.nil hTrail)
      rw [← hSplit] at hOne
      exact hOne

end Scan

------------------------------------------------------------
-- The Loop
------------------------------------------------------------

namespace Scan

theorem chunk_spec
    (front mid back : Text) :
    ∃ here,
      chunk (front ++ mid ++ back) (Utf8.size front)
          (Utf8.size (front ++ mid)) =
        some here ∧
        Spaced here mid := by
  refine ⟨_, ?_, spaced_trim mid⟩
  unfold chunk
  rw [Utf8.slice?_size]
  rfl

/- Bytes that are not ASCII are passed over. -/
theorem sentencesFrom_skip
    {s : Text}
    {bytes : List UInt8}
    {start i : Nat}
    (n : Nat)
    (hWide :
      ∀ j, i ≤ j → j < i + n → ∃ b, bytes[j]? = some b ∧
        128 ≤ b.toNat) :
    sentencesFrom s bytes start i =
      sentencesFrom s bytes start (i + n) := by
  induction n generalizing i with
  | zero => rfl
  | succ n ih =>
      rcases hWide i (Nat.le_refl i) (by omega) with
        ⟨b, hByte, hHigh⟩
      rcases List.getElem?_eq_some_iff.mp hByte with ⟨hLt, hEq⟩
      have hNot (k : UInt8) (hLow : k.toNat < 128) :
          ¬ bytes[i] = k := by
        intro hSame
        rw [hEq] at hSame
        rw [hSame] at hHigh
        omega
      have hNext :=
        ih (i := i + 1)
          (fun j hFrom hTo => hWide j (by omega) (by omega))
      rw [sentencesFrom, dif_pos hLt]
      dsimp only
      rw [if_neg, if_neg, hNext]
      · congr 1
        omega
      · have hLine := hNot 10 (by decide)
        simp [hLine]
      · have hDot := hNot 46 (by decide)
        have hBang := hNot 33 (by decide)
        have hAsk := hNot 63 (by decide)
        simp [hDot, hBang, hAsk]

/- The bytes from where a part of a text ends. -/
theorem getElem?_encode
    (s t : Text)
    (j : Nat) :
    (Utf8.encode (s ++ t))[Utf8.size s + j]? =
      (Utf8.encode t)[j]? := by
  rw [Utf8.encode_append, ← Utf8.length_encode,
    List.getElem?_append_right (Nat.le_add_right _ _),
    Nat.add_sub_cancel_left]

theorem encode_cons_of_ascii
    {c : Char}
    (hAscii : c.toNat < 128)
    (rest : Text) :
    Utf8.encode (c :: rest) =
      UInt8.ofNat c.toNat :: Utf8.encode rest := by
  unfold Utf8.encode
  rw [List.flatMap_cons, Utf8.encodeChar_of_ascii hAscii]
  rfl

/- A text whose first byte is ASCII starts with that character. -/
theorem exists_cons_of_byte
    {s : Text}
    {b : UInt8}
    (hByte : (Utf8.encode s)[0]? = some b)
    (hLow : b.toNat < 128) :
    ∃ d rest, s = d :: rest ∧ d.toNat = b.toNat := by
  cases s with
  | nil => cases hByte
  | cons d rest =>
      refine ⟨d, rest, rfl, ?_⟩
      by_cases hAscii : d.toNat < 128
      · rw [encode_cons_of_ascii hAscii] at hByte
        cases hByte
        rw [UInt8.toNat_ofNat']
        omega
      · have hWide : 128 ≤ d.toNat := Nat.not_lt.mp hAscii
        have hLength := String.length_utf8EncodeChar d
        have hPos := d.utf8Size_pos
        unfold Utf8.encode at hByte
        rw [List.flatMap_cons,
          List.getElem?_append_left (by omega)] at hByte
        have hMem := List.mem_of_getElem? hByte
        have hHigh := Utf8.le_of_mem_encodeChar hWide hMem
        omega

theorem isWhitespace_of_byte
    {d : Char}
    {b : UInt8}
    (hSame : d.toNat = b.toNat)
    (hSpace : isAsciiWhitespace b = true) :
    RustText.isWhitespace d = true := by
  unfold isAsciiWhitespace at hSpace
  simp only [Bool.or_eq_true, decide_eq_true_eq] at hSpace
  unfold RustText.isWhitespace
  rw [hSame]
  rcases hSpace with (((rfl | rfl) | rfl) | rfl) | rfl <;> rfl

theorem toNat_lt_of_isAsciiWhitespace
    {b : UInt8}
    (hSpace : isAsciiWhitespace b = true) :
    b.toNat < 128 := by
  unfold isAsciiWhitespace at hSpace
  simp only [Bool.or_eq_true, decide_eq_true_eq] at hSpace
  rcases hSpace with (((rfl | rfl) | rfl) | rfl) | rfl <;> decide

theorem size_of_ascii
    {c : Char}
    (hAscii : c.toNat < 128) :
    c.utf8Size = 1 := by
  rw [← String.length_utf8EncodeChar,
    Utf8.encodeChar_of_ascii hAscii]
  rfl

/- What is cut off, and a whitespace character after it. -/
theorem spaced_cut
    {here later : List Text}
    {part back : Text}
    {d : Char}
    (hHere : Spaced here part)
    (hLater : Spaced later back)
    (hSpace : RustText.isWhitespace d = true) :
    Spaced (here ++ later) (part ++ d :: back) := by
  apply hHere.append
  refine @Spaced.prepend _ _ [d] ?_ hLater
  intro c hMem
  rw [List.mem_singleton.mp hMem]
  exact hSpace

theorem sentencesFrom_end
    (front mid : Text) :
    ∃ out,
      sentencesFrom (front ++ mid) (Utf8.encode (front ++ mid))
          (Utf8.size front) (Utf8.size (front ++ mid)) =
        some out ∧
        Spaced out mid := by
  have hLength := Utf8.length_encode (front ++ mid)
  rw [sentencesFrom, dif_neg (by omega), hLength]
  by_cases hOpen : Utf8.size front < Utf8.size (front ++ mid)
  · rw [if_pos hOpen]
    have hChunk := chunk_spec front mid []
    rwa [List.append_nil] at hChunk
  · rw [if_neg hOpen]
    rw [Utf8.size_append] at hOpen
    have hNil : mid = [] := by
      cases mid with
      | nil => rfl
      | cons c rest =>
          rw [Utf8.size_cons] at hOpen
          have hPos := c.utf8Size_pos
          omega
    refine ⟨[], rfl, ?_⟩
    rw [hNil]
    exact Spaced.nil (fun c hMem => by cases hMem)

/- What the loop reads at a character, and what after it. -/
theorem bytes_at
    {c : Char}
    (hAscii : c.toNat < 128)
    (before rest : Text) :
    (Utf8.encode (before ++ c :: rest))[Utf8.size before]? =
        some (UInt8.ofNat c.toNat) ∧
      (Utf8.encode (before ++ c :: rest))[Utf8.size before + 1]? =
        (Utf8.encode rest)[0]? := by
  have hHere := getElem?_encode before (c :: rest) 0
  have hNext := getElem?_encode before (c :: rest) 1
  rw [encode_cons_of_ascii hAscii] at hHere hNext
  exact ⟨hHere, hNext⟩

/- A character that is not ASCII is passed over whole. -/
theorem sentencesFrom_wide
    {c : Char}
    (hWide : 128 ≤ c.toNat)
    (start : Nat)
    (before rest : Text) :
    sentencesFrom (before ++ c :: rest)
        (Utf8.encode (before ++ c :: rest)) start
        (Utf8.size before) =
      sentencesFrom (before ++ c :: rest)
        (Utf8.encode (before ++ c :: rest)) start
        (Utf8.size before + c.utf8Size) := by
  apply sentencesFrom_skip
  intro j hFrom hTo
  have hByte := getElem?_encode before (c :: rest) (j - Utf8.size before)
  rw [Nat.add_sub_cancel' hFrom] at hByte
  have hWithin :
      j - Utf8.size before < (String.utf8EncodeChar c).length := by
    rw [String.length_utf8EncodeChar]
    omega
  unfold Utf8.encode at hByte
  rw [List.flatMap_cons, List.getElem?_append_left hWithin,
    List.getElem?_eq_getElem hWithin] at hByte
  exact
    ⟨_, hByte, Utf8.le_of_mem_encodeChar hWide (List.getElem_mem _)⟩

/- One turn at an ASCII character: a sentence ends, or it goes on. -/
theorem sentencesFrom_ascii
    {c : Char}
    (hAscii : c.toNat < 128)
    (start : Nat)
    (before rest : Text) :
    let s := before ++ c :: rest
    let i := Utf8.size before
    sentencesFrom s (Utf8.encode s) start i =
        sentencesFrom s (Utf8.encode s) start (i + 1) ∨
      ∃ d rest', rest = d :: rest' ∧ d.toNat < 128 ∧
        RustText.isWhitespace d = true ∧
        (sentencesFrom s (Utf8.encode s) start i =
            (do
              let here ←
                (if start ≤ i + 1 then chunk s start (i + 1)
                else some [])
              let later ←
                sentencesFrom s (Utf8.encode s) (i + 2) (i + 2)
              some (here ++ later)) ∨
          RustText.isWhitespace c = true ∧
            sentencesFrom s (Utf8.encode s) start i =
              (do
                let here ←
                  (if start ≤ i then chunk s start i else some [])
                let later ←
                  sentencesFrom s (Utf8.encode s) (i + 2) (i + 2)
                some (here ++ later))) := by
  intro s i
  have hBytes := bytes_at hAscii before rest
  rcases List.getElem?_eq_some_iff.mp hBytes.1 with ⟨hLt, hHere⟩
  rw [sentencesFrom, dif_pos hLt]
  dsimp only
  split
  · rename_i hEnd
    simp only [Bool.and_eq_true, Option.any_eq_true] at hEnd
    rcases hEnd.2 with ⟨b, hByte, hSpace⟩
    have hFirst := hBytes.2.symm.trans hByte
    have hLow := toNat_lt_of_isAsciiWhitespace hSpace
    rcases exists_cons_of_byte hFirst hLow with ⟨d, rest', hRest, hSame⟩
    exact
      Or.inr
        ⟨d, rest', hRest, by omega, isWhitespace_of_byte hSame hSpace,
          Or.inl rfl⟩
  · split
    · rename_i hBreak
      simp only [Bool.and_eq_true, decide_eq_true_eq] at hBreak
      have hFirst := hBytes.2.symm.trans hBreak.2
      rcases exists_cons_of_byte hFirst (by decide) with
        ⟨d, rest', hRest, hSame⟩
      have hOwn : c.toNat = (10 : UInt8).toNat := by
        have hSelf := hHere.symm.trans hBreak.1
        have hNat := congrArg UInt8.toNat hSelf
        rw [UInt8.toNat_ofNat'] at hNat
        omega
      have hLow : (10 : UInt8).toNat < 128 := by decide
      exact
        Or.inr
          ⟨d, rest', hRest, by omega,
            isWhitespace_of_byte hSame (by decide),
            Or.inr ⟨isWhitespace_of_byte hOwn (by decide), rfl⟩⟩
    · exact Or.inl rfl

/-
  The loop from a character on. The induction is on the
  characters left: two are taken where a sentence ends.
-/
theorem sentencesFrom_spec
    (n : Nat)
    (front mid back : Text)
    (hLength : back.length ≤ n) :
    ∃ out,
      sentencesFrom (front ++ mid ++ back)
          (Utf8.encode (front ++ mid ++ back)) (Utf8.size front)
          (Utf8.size (front ++ mid)) =
        some out ∧
        Spaced out (mid ++ back) := by
  induction n generalizing front mid back with
  | zero =>
      have hNil : back = [] :=
        List.length_eq_zero_iff.mp (Nat.le_zero.mp hLength)
      rw [hNil, List.append_nil, List.append_nil]
      exact sentencesFrom_end front mid
  | succ n ih =>
      cases back with
      | nil =>
          rw [List.append_nil, List.append_nil]
          exact sentencesFrom_end front mid
      | cons c rest =>
          rw [List.length_cons] at hLength
          have hPassed :=
            ih front (mid ++ [c]) rest (by omega)
          simp only [List.append_assoc, List.singleton_append,
            Utf8.size_append, Utf8.size_cons, Utf8.size_nil,
            Nat.add_zero] at hPassed ⊢
          by_cases hAscii : c.toNat < 128
          · have hSize := size_of_ascii hAscii
            have hTurn :=
              sentencesFrom_ascii hAscii (Utf8.size front)
                (front ++ mid) rest
            simp only [List.append_assoc, Utf8.size_append] at hTurn
            rcases hTurn with
              hOn | ⟨d, rest', rfl, hLow, hSpace, hCut⟩
            · rw [hSize] at hPassed
              rw [hOn, Nat.add_assoc]
              exact hPassed
            · rw [List.length_cons] at hLength
              rcases
                ih (front ++ (mid ++ [c, d])) [] rest' (by omega) with
                ⟨later, hRun, hLater⟩
              simp only [List.append_assoc, List.nil_append,
                List.cons_append, Utf8.size_append, Utf8.size_cons,
                Utf8.size_nil, hSize, size_of_ascii hLow,
                Nat.add_zero] at hRun hLater
              rcases hCut with hEnd | ⟨hBreak, hEnd⟩
              · rcases chunk_spec front (mid ++ [c]) (d :: rest') with
                  ⟨here, hChunk, hHere⟩
                simp only [List.append_assoc, List.singleton_append,
                  Utf8.size_append, Utf8.size_cons, Utf8.size_nil,
                  hSize, Nat.add_zero] at hChunk
                rw [hEnd, if_pos (by omega)]
                simp only [Nat.add_assoc]
                rw [hChunk]
                simp only [Option.bind_eq_bind, Option.bind_some]
                rw [hRun]
                refine ⟨here ++ later, rfl, ?_⟩
                have hSpaced := spaced_cut hHere hLater hSpace
                rwa [List.append_assoc] at hSpaced
              · rcases chunk_spec front mid (c :: d :: rest') with
                  ⟨here, hChunk, hHere⟩
                simp only [List.append_assoc,
                  Utf8.size_append] at hChunk
                rw [hEnd, if_pos (by omega)]
                rw [hChunk]
                simp only [Option.bind_eq_bind, Option.bind_some,
                  Nat.add_assoc]
                rw [hRun]
                refine ⟨here ++ later, rfl, ?_⟩
                have hAfter :=
                  spaced_cut
                    (@Spaced.nil [] (fun e hMem => by cases hMem))
                    hLater hSpace
                exact spaced_cut hHere hAfter hBreak
          · have hWide :=
              sentencesFrom_wide (Nat.not_lt.mp hAscii)
                (Utf8.size front) (front ++ mid) rest
            rw [List.append_assoc, Utf8.size_append] at hWide
            rw [hWide, Nat.add_assoc]
            exact hPassed

theorem splitSentences_spec
    (s : Text) :
    ∃ sentences, splitSentences s = some sentences ∧
      Spaced sentences s :=
  sentencesFrom_spec s.length [] [] s (Nat.le_refl _)

end Scan
