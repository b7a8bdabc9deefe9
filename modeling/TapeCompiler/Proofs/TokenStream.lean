import TapeCompiler.Proofs.Scanning

/-!
# The tokens a scanner hands out

A scanner hands out one token at a time, until it says that there is none left
(`Scanner.HandsOut`). Which tokens these are does not depend on how it goes about it:
in every state there is a list of tokens that are left (`Scanner.left`), and handing
out takes the first of them (`Scanner.next_left`).

  * `Scanner.handsOut_iff`: exactly the tokens that are left are handed out.
  * `Scanner.handsOut_bytes`: for a text these are its command bytes, each at its own
    index, and then the end of the input at the length of the text. No command byte
    is lost to a malformed sequence before it, and no byte of a longer character
    gives a command.
-/

namespace TapeCompiler

/-! ## Scanning one token -/

namespace Reader

theorem tokensAlong_append (acc : List Located) (ahead : List Glyph) (r : Reader) :
    tokensAlong acc ahead r = tokensAlong [] ahead r ++ acc := by
  induction ahead generalizing acc r with
  | nil =>
    cases hchar : r.char with
    | none => simp only [tokensAlong, hchar, List.singleton_append]
    | some c => cases hc : Command.ofChar? c <;> simp [tokensAlong, hchar, hc]
  | cons g ahead ih =>
    cases hchar : r.char with
    | none => simp only [tokensAlong, hchar, List.singleton_append]
    | some c =>
      rw [tokensAlong.eq_def, tokensAlong.eq_def []]
      simp only [hchar]
      cases Command.ofChar? c with
      | none => exact ih acc r.advance
      | some cmd => rw [ih, ih [_], List.append_assoc, List.singleton_append]

/-- The tokens from a reader on are the one that it scans and, unless that is the end
    of the input, those from behind it on. -/
theorem tokens_eq_scan (r : Reader) :
    r.tokens = r.scan.1 :: if r.scan.1.token.isEof then [] else r.scan.2.tokens := by
  unfold tokens scan
  induction h : r.rest generalizing r with
  | nil =>
    have hadvance : r.advance.char = none := by rw [advance_char, h]; rfl
    cases hchar : r.char with
    | none => simp [tokensAlong, scanAlong, hchar, Token.isEof]
    | some c =>
      cases hc : Command.ofChar? c with
      | none => simp [tokensAlong, scanAlong, hchar, hc, Token.isEof]
      | some cmd => simp [tokensAlong, scanAlong, hchar, hc, hadvance, Token.isEof]
  | cons g ahead ih =>
    have hrest : r.advance.rest = ahead := by rw [advance_rest, h]; rfl
    cases hchar : r.char with
    | none => simp [tokensAlong, scanAlong, hchar, Token.isEof]
    | some c =>
      rw [tokensAlong.eq_def, scanAlong.eq_def]
      simp only [hchar]
      cases Command.ofChar? c with
      | none => exact ih r.advance hrest
      | some cmd =>
        simp only [Token.isEof, Bool.false_eq_true, if_false]
        rw [tokensAlong_append, List.reverse_append, hrest]
        rfl

end Reader

/-! ## Handing out -/

namespace Scanner

/-- The tokens that are handed out until there is none left. -/
inductive HandsOut : Scanner → List Located → Prop
  | stop {s s' : Scanner} : s.next = (false, s') → HandsOut s []
  | more {s s' : Scanner} {ts : List Located} : s.next = (true, s') → HandsOut s' ts →
      HandsOut s (s'.current :: ts)

/-- The tokens not handed out yet. -/
def left (s : Scanner) : List Located :=
  if s.finished then []
  else
    match s.ahead with
    | some t => t :: if t.token.isEof then [] else s.reader.tokens
    | none => s.reader.tokens

/-- Either nothing is left, or the first token that is left is handed out. -/
theorem next_left (s : Scanner) :
    (s.left = [] ∧ s.next = (false, s)) ∨
      ∃ s', s.next = (true, s') ∧ s.left = s'.current :: s'.left := by
  unfold left next
  cases s.finished with
  | true => exact .inl ⟨rfl, rfl⟩
  | false =>
    refine .inr ?_
    cases s.ahead with
    | some t => exact ⟨_, rfl, rfl⟩
    | none => exact ⟨_, rfl, s.reader.tokens_eq_scan⟩

/-- Exactly the tokens that are left are handed out. -/
theorem handsOut_iff {s : Scanner} {ts : List Located} : HandsOut s ts ↔ ts = s.left := by
  constructor
  · intro h
    induction h with
    | @stop s s' hnext =>
      rcases s.next_left with ⟨hleft, -⟩ | ⟨s₁, hmore, -⟩
      · exact hleft.symm
      · cases hnext.symm.trans hmore
    | @more s s' ts hnext _ ih =>
      rcases s.next_left with ⟨-, hstop⟩ | ⟨s₁, hmore, hleft⟩
      · cases hnext.symm.trans hstop
      · obtain rfl : s' = s₁ := congrArg Prod.snd (hnext.symm.trans hmore)
        rw [hleft, ih]
  · rintro rfl
    induction h : s.left generalizing s with
    | nil =>
      rcases s.next_left with ⟨-, hstop⟩ | ⟨s', -, hleft⟩
      · exact .stop hstop
      · cases h.symm.trans hleft
    | cons t ts ih =>
      rcases s.next_left with ⟨hleft, -⟩ | ⟨s', hmore, hleft⟩
      · cases h.symm.trans hleft
      · obtain ⟨rfl, hts⟩ := List.cons.inj (h.symm.trans hleft)
        exact .more hmore (ih hts.symm)

end Scanner

/-! ## The bytes of a text -/

/-- The token of a byte with the given index, if it has one. -/
def Token.ofIndexed? (b : UInt8 × Nat) : Option (Token × Int) :=
  (Command.ofByte? b.1).map fun c => (.command c, (b.2 : Int))

/-- The tokens that a text stands for, byte by byte, each with its offset: one for
    each command byte, and the end of the input behind the last byte. -/
def Bytes.tokens (src : Bytes) : List (Token × Int) :=
  src.zipIdx.filterMap Token.ofIndexed? ++ [(.eof, (src.length : Int))]

/-- A token with its offset, the rest of its position left out. -/
def Located.withOffset (t : Located) : Token × Int :=
  (t.token, t.pos.offset)

theorem Located.withOffset_along (filename : String) (before after : Bytes) :
    (along filename before after).map withOffset =
      (after.zipIdx before.length).filterMap Token.ofIndexed? ++
        [(.eof, ((before ++ after).length : Int))] := by
  induction after generalizing before with
  | nil => simp [along, withOffset, Pos.after]
  | cons b after ih =>
    rw [along, List.map_append, ih, List.zipIdx_cons, List.filterMap_cons, List.append_assoc,
      List.singleton_append, List.length_append, List.length_singleton, atByte, Token.ofIndexed?]
    cases Command.ofByte? b <;> rfl

/-- A token that is not the end of the input stands on the byte of its command. -/
theorem Bytes.getElem?_of_mem_tokens {src : Bytes} {t : Token × Int} (h : t ∈ src.tokens)
    (hne : t.1 ≠ .eof) :
    ∃ (c : Command) (i : Nat), t = (.command c, (i : Int)) ∧ src[i]? = some c.toByte := by
  rcases List.mem_append.1 h with h | h
  · obtain ⟨⟨b, i⟩, hmem, hb⟩ := List.mem_filterMap.1 h
    obtain ⟨c, hc, rfl⟩ := Option.map_eq_some_iff.1 hb
    rw [List.mem_zipIdx_iff_getElem?] at hmem
    exact ⟨c, i, rfl, Command.ofByte?_eq_some hc ▸ hmem⟩
  · obtain rfl := List.mem_singleton.1 h
    exact absurd rfl hne

/-- Every command byte has its token. -/
theorem Bytes.mem_tokens_of_getElem? {src : Bytes} {c : Command} {i : Nat}
    (h : src[i]? = some c.toByte) : (.command c, (i : Int)) ∈ src.tokens := by
  refine List.mem_append_left _ (List.mem_filterMap.2 ⟨(c.toByte, i), ?_, ?_⟩)
  · exact List.mem_zipIdx_iff_getElem?.2 h
  · rw [Token.ofIndexed?, Command.ofByte?_toByte]
    rfl

/-- The bytes that are left where a glyph of a text starts. -/
theorem Glyph.drop_widths {gs hs : List Glyph} {g : Glyph} {src : Bytes}
    (h : decode src = gs ++ g :: hs) :
    ∃ a rest, src.drop (widths gs) = a :: rest ∧ g = first a rest := by
  induction gs generalizing src with
  | nil =>
    cases src with
    | nil => cases h
    | cons a rest =>
      rw [decode_cons] at h
      exact ⟨a, rest, rfl, (List.cons.inj h).1.symm⟩
  | cons g' gs ih =>
    cases src with
    | nil => cases h
    | cons a rest =>
      rw [decode_cons, List.cons_append, List.cons.injEq] at h
      obtain ⟨a', rest', hdrop, hg⟩ := ih h.2
      refine ⟨a', rest', ?_, hg⟩
      have hpos := g'.width_pos
      rw [List.drop_drop, h.1] at hdrop
      obtain ⟨n, hn⟩ : ∃ n, g'.width = n + 1 := ⟨g'.width - 1, by omega⟩
      rw [widths_cons, hn, Nat.add_right_comm, List.drop_succ_cons, ← hdrop, hn, Nat.add_sub_cancel]

/-- All bytes of a glyph that has more than one are outside ASCII. -/
theorem Glyph.le_of_mem_span {gs hs : List Glyph} {g : Glyph} {src : Bytes}
    (h : decode src = gs ++ g :: hs) (hg : g.width ≠ 1) {i : Nat} {b : UInt8}
    (hi : widths gs ≤ i) (hlt : i < widths gs + g.width) (hb : src[i]? = some b) : 0x80 ≤ b := by
  obtain ⟨a, rest, hdrop, rfl⟩ := drop_widths h
  obtain ⟨k, rfl⟩ := Nat.exists_eq_add_of_le hi
  rw [← List.getElem?_drop, hdrop] at hb
  cases k with
  | zero =>
    obtain rfl : a = b := Option.some.inj hb
    by_contra hlow
    exact hg (width_first_ascii (UInt8.not_le.1 hlow) rest)
  | succ k =>
    refine (first_tail a rest).2 b (List.mem_of_getElem? (i := k) ?_)
    rw [List.getElem?_take, if_pos (by omega)]
    exact hb

namespace Scanner

theorem left_ofSource (filename : String) (src : Bytes) :
    (ofSource (.ofBytes filename src)).left = Located.along filename [] src :=
  Source.tokens_ofBytes filename src

/-- Handing out the tokens of a text ends, and gives one token for each of its command
    bytes, with the index of that byte as its offset, and then the end of the input.
    In particular no command byte is lost, whatever stands before it, and no command
    comes from a glyph of more than one byte. -/
theorem handsOut_bytes (filename : String) (src : Bytes) :
    ∃ ts, (∀ us, HandsOut (ofSource (.ofBytes filename src)) us ↔ us = ts) ∧
      ts.map Located.withOffset = src.tokens ∧
      (∀ (before rest : Bytes) (c : Command), src = before ++ c.toByte :: rest →
        ∃ t ∈ ts, t.token = .command c ∧ t.pos.offset = before.length) ∧
      ∀ (gs hs : List Glyph) (g : Glyph), Glyph.decode src = gs ++ g :: hs → g.width ≠ 1 →
        ∀ t ∈ ts, t.token ≠ .eof →
          t.pos.offset < Glyph.widths gs ∨ Glyph.widths gs + g.width ≤ t.pos.offset := by
  have htokens : (Located.along filename [] src).map Located.withOffset = src.tokens :=
    Located.withOffset_along filename [] src
  refine ⟨Located.along filename [] src, ?_, htokens, ?_, ?_⟩
  · intro us
    rw [handsOut_iff, left_ofSource]
  · rintro before rest c rfl
    have hbyte : (before ++ c.toByte :: rest)[before.length]? = some c.toByte := by simp
    have hmem := Bytes.mem_tokens_of_getElem? hbyte
    rw [← htokens] at hmem
    obtain ⟨t, ht, hpair⟩ := List.mem_map.1 hmem
    exact ⟨t, ht, congrArg Prod.fst hpair, congrArg Prod.snd hpair⟩
  · intro gs hs g hdecode hwidth t ht hne
    have hmem : t.withOffset ∈ src.tokens := htokens ▸ List.mem_map_of_mem ht
    obtain ⟨c, i, hpair, hbyte⟩ := Bytes.getElem?_of_mem_tokens hmem hne
    have hoffset : t.pos.offset = i := congrArg Prod.snd hpair
    -- A command byte inside the glyph would be outside ASCII.
    by_contra hinside
    have hlow := Glyph.le_of_mem_span hdecode hwidth (by omega) (by omega) hbyte
    cases c <;> exact absurd hlow (by decide)

end Scanner

end TapeCompiler
