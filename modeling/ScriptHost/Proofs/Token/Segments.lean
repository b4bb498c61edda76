import ScriptHost.Proofs.Token.Order
import ScriptHost.Proofs.Token.Slice
import ScriptHost.Proofs.Token.Terminator

/-!
What a text is cut into. All of a text that is scanned, up to its end or its first terminator, is
either the piece of a token or stands between two of them, and then it is nothing but blank
characters and comments. Each piece is scanned alone to its token.
-/

namespace ScriptHost

variable {text rest closing piece lexeme : List Char} {c : Char} {kind : TokenKind}
  {offset stop : Nat} {gap : Gap} {scratch : TextBuffer}

/-- Blank characters and comments up to the end of a text, the last of which may be a line comment
that no newline completes. -/
inductive IsLastGap : List Char → Prop
  | closed {gap : List Char} (h : IsGap gap) : IsLastGap gap
  | unclosed {gap body : List Char} (h : IsGap gap) (hline : '\n' ∉ body)
      (hend : terminator ∉ body) : IsLastGap (gap ++ '/' :: '/' :: body)

theorem IsGap.append {first second : List Char} (h : IsGap first) (hsecond : IsGap second) :
    IsGap (first ++ second) := by
  induction h with
  | nil => exact hsecond
  | blank hc _ ih => exact .blank hc ih
  | line hline hend _ ih =>
      rw [List.append_assoc]
      exact .line hline hend ih
  | block hclose hend _ ih =>
      rw [List.append_assoc]
      exact .block hclose hend ih

theorem IsLastGap.append {first second : List Char} (hfirst : IsGap first)
    (h : IsLastGap second) : IsLastGap (first ++ second) := by
  cases h with
  | closed h => exact .closed (hfirst.append h)
  | unclosed h hline hend =>
      rw [← List.append_assoc]
      exact .unclosed (hfirst.append h) hline hend

/-- A newline behind a text ends the back of any two parts of it, or is the end of the front. -/
theorem append_newline_eq_append {first second : List Char}
    (h : text ++ ['\n'] = first ++ second) :
    (second = [] ∧ text ++ ['\n'] = first) ∨
      ∃ more, text = first ++ more ∧ more ++ ['\n'] = second := by
  rcases List.append_eq_append_iff.mp h with ⟨more, rfl, hmore⟩ | ⟨more, rfl, rfl⟩
  · cases more with
    | nil => exact .inr ⟨[], (List.append_nil _).symm.trans (List.append_nil _).symm, hmore⟩
    | cons c more =>
        obtain ⟨rfl, hnil⟩ := List.cons.inj hmore
        obtain ⟨rfl, rfl⟩ := List.append_eq_nil_iff.mp hnil.symm
        exact .inl ⟨rfl, rfl⟩
  · exact .inr ⟨more, rfl, rfl⟩

/-- A gap that a newline completes is a last gap without it. -/
theorem IsLastGap.of_newline (h : IsGap (text ++ ['\n'])) : IsLastGap text := by
  generalize hwhole : text ++ ['\n'] = whole at h
  induction h generalizing text with
  | nil => simp at hwhole
  | @blank c gap hc _ ih =>
      have hwhole : text ++ ['\n'] = [c] ++ gap := hwhole
      rcases append_newline_eq_append hwhole with ⟨rfl, heq⟩ | ⟨more, rfl, hmore⟩
      · obtain rfl : text = [] := List.append_inj_left' heq rfl
        exact .closed .nil
      · exact .append (.blank hc .nil) (ih hmore)
  | @line body gap hline hend _ ih =>
      have hwhole := hwhole.trans (List.append_cons ..)
      rcases append_newline_eq_append hwhole with ⟨rfl, heq⟩ | ⟨more, rfl, hmore⟩
      · obtain rfl : text = '/' :: '/' :: body := List.append_inj_left' heq rfl
        exact .unclosed .nil hline hend
      · exact .append (.line hline hend .nil) (ih hmore)
  | @block body gap hclose hend _ ih =>
      have hwhole := (hwhole.trans (List.append_cons ..)).trans (List.append_cons ..)
      rcases append_newline_eq_append hwhole with ⟨rfl, heq⟩ | ⟨more, rfl, hmore⟩
      · have hlast := List.append_inj_right' heq rfl
        cases hlast
      · have hblock : IsGap ('/' :: '*' :: body ++ ['*'] ++ ['/']) := by
          rw [← List.append_cons]
          exact .block hclose hend .nil
        exact .append hblock (ih hmore)

/-- The mark that begins what is being skipped. -/
def Gap.mark : Gap → List Char
  | .blank => []
  | .lineComment => ['/', '/']
  | .blockComment _ => ['/', '*']

theorem IsGap.line_cons (h : IsGap ('/' :: '/' :: text)) (hline : c ≠ '\n')
    (hend : c ≠ terminator) : IsGap ('/' :: '/' :: c :: text) := by
  generalize heq : '/' :: '/' :: text = whole at h
  cases h with
  | nil => cases heq
  | blank hc =>
      obtain ⟨rfl, -⟩ := List.cons.inj heq
      cases hc
  | @line body gap hline' hend' h =>
      obtain rfl : text = body ++ '\n' :: gap := by simpa using heq
      exact @IsGap.line (c :: body) gap (by simp [hline.symm, hline'])
        (by simp [hend.symm, hend']) h
  | block => simp at heq

theorem IsGap.block_cons (h : IsGap ('/' :: '*' :: text))
    (hclose : ∀ l, c = '*' → text = '/' :: l → False) (hend : c ≠ terminator) :
    IsGap ('/' :: '*' :: c :: text) := by
  generalize heq : '/' :: '*' :: text = whole at h
  cases h with
  | nil => cases heq
  | blank hc =>
      obtain ⟨rfl, -⟩ := List.cons.inj heq
      cases hc
  | line => simp at heq
  | @block body gap hclose' hend' h =>
      obtain rfl : text = body ++ '*' :: '/' :: gap := by simpa using heq
      refine @IsGap.block (c :: body) gap ?_ (by simp [hend.symm, hend']) h
      rintro ⟨front, back, hinfix⟩
      cases front with
      | nil =>
          obtain ⟨rfl, rfl⟩ := List.cons.inj hinfix
          exact hclose _ rfl rfl
      | cons d front =>
          obtain ⟨-, rfl⟩ := List.cons.inj hinfix
          exact hclose' ⟨front, back, by simp⟩

/-- What is skipped is a gap where a token follows, and the last gap where none does. -/
theorem isGap_of_skipGap (h : skipGap gap text offset = .ok (rest, stop))
    (hclosing : closing = ['\n'] ∨ closing = [] ∧ ∃ c cs, rest = c :: cs ∧ c ≠ terminator) :
    ∃ front, text = front ++ rest ∧ stop = offset + byteLength front ∧
      IsGap (gap.mark ++ front ++ closing) := by
  have hone : '/'.utf8Size = 1 ∧ '*'.utf8Size = 1 := by decide
  have hclosed : IsGap closing := by
    rcases hclosing with rfl | ⟨rfl, -⟩
    · exact .blank rfl .nil
    · exact .nil
  fun_induction skipGap gap text offset with
  | case1 | case5 =>
      cases h
      exact ⟨[], rfl, rfl, hclosed⟩
  | case2 cs offset ih | case3 cs offset ih =>
      obtain ⟨front, rfl, rfl, hgap⟩ := ih h
      exact ⟨_ :: _ :: front, rfl, by simp only [byteLength]; omega, hgap⟩
  | case4 c cs offset _ _ hblank ih =>
      obtain ⟨front, rfl, rfl, hgap⟩ := ih h
      exact ⟨c :: front, rfl, by simp only [byteLength]; omega, .blank hblank hgap⟩
  | case6 | case8 =>
      cases h
      refine ⟨[], rfl, rfl, ?_⟩
      rcases hclosing with rfl | ⟨-, c, cs, hrest, hc⟩
      · exact @IsGap.line [] [] List.not_mem_nil List.not_mem_nil .nil
      · cases hrest <;> exact absurd rfl hc
  | case7 cs offset ih =>
      obtain ⟨front, rfl, rfl, hgap⟩ := ih h
      refine ⟨'\n' :: front, rfl, by simp only [byteLength]; omega, ?_⟩
      exact @IsGap.line [] _ List.not_mem_nil List.not_mem_nil hgap
  | case9 c cs offset hline hend ih =>
      obtain ⟨front, rfl, rfl, hgap⟩ := ih h
      exact ⟨c :: front, rfl, by simp only [byteLength]; omega, hgap.line_cons hline hend⟩
  | case10 | case12 => cases h
  | case11 start cs offset ih =>
      obtain ⟨front, rfl, rfl, hgap⟩ := ih h
      refine ⟨'*' :: '/' :: front, rfl, by simp only [byteLength]; omega, ?_⟩
      exact @IsGap.block [] _ (by simp) List.not_mem_nil hgap
  | case13 start c cs offset hclose hend ih =>
      obtain ⟨front, rfl, rfl, hgap⟩ := ih h
      refine ⟨c :: front, rfl, by simp only [byteLength]; omega, hgap.block_cons ?_ hend⟩
      rintro l rfl hslash
      cases front with
      | nil => rcases hclosing with rfl | ⟨rfl, -⟩ <;> cases hslash
      | cons d front =>
          obtain ⟨rfl, -⟩ := List.cons.inj hslash
          exact hclose _ rfl rfl

/-- The places in front of the tokens, from the offset or the token before on. -/
def gapPlaces : Nat → List Token → List Span
  | _, [] => []
  | offset, t :: rest => ⟨offset, t.span.start⟩ :: gapPlaces t.span.stop rest

/-- Where the last of the tokens ends; without any, the offset. -/
def lastStop : Nat → List Token → Nat
  | offset, [] => offset
  | _, t :: rest => lastStop t.span.stop rest

/-- From the offset on, gaps stand in front of the tokens and one more behind the last. -/
structure Separated (text : List Char) (offset : Nat) (front : List Token) : Prop where
  gaps : ∀ place ∈ gapPlaces offset front, ∃ gap, StandsAt text offset gap place ∧ IsGap gap
  last : ∃ gap, StandsAt text offset gap ⟨lastStop offset front, offset + byteLength text⟩ ∧
    IsLastGap gap

theorem Separated.cons {gap : List Char} {t : Token} {front : List Token} (hgap : IsGap gap)
    (hstart : t.span.start = offset + byteLength gap)
    (hstop : t.span.stop = offset + byteLength (gap ++ piece))
    (h : Separated text t.span.stop front) :
    Separated (gap ++ piece ++ text) offset (t :: front) := by
  have hbehind {other : List Char} {place : Span} (hother : StandsAt text t.span.stop other place) :
      StandsAt (gap ++ piece ++ text) offset other place :=
    .append _ (hstop ▸ hother)
  constructor
  · intro place hplace
    rcases List.mem_cons.mp hplace with rfl | hplace
    · exact ⟨gap, ⟨[], piece ++ text, by simp, rfl, hstart⟩, hgap⟩
    · obtain ⟨other, hother, hisGap⟩ := h.gaps place hplace
      exact ⟨other, hbehind hother, hisGap⟩
  · obtain ⟨other, hother, hisGap⟩ := h.last
    refine ⟨other, ?_, hisGap⟩
    have hend : offset + byteLength (gap ++ piece ++ text) = t.span.stop + byteLength text := by
      rw [byteLength_append, hstop, Nat.add_assoc]
    rw [hend]
    exact hbehind hother

/-- The tokens of a text in which nothing marks the end leave nothing but gaps. -/
theorem separated_of_scanFrom {front : List Token} {last : Token} (htext : terminator ∉ text)
    (h : (scanFrom text offset scratch).1 = .ok (front ++ [last])) :
    Separated text offset front := by
  fun_induction scanFrom text offset scratch generalizing front with
  | case1 | case4 => cases h
  | case2 text offset scratch start hgap =>
      obtain ⟨gap, hsplit, hstart, hisGap⟩ := isGap_of_skipGap hgap (.inl rfl)
      obtain rfl : text = gap := by rw [hsplit, List.append_nil]
      cases front with
      | nil =>
          exact ⟨List.forall_mem_nil _, text, ⟨[], [], by simp, rfl, rfl⟩,
            .of_newline hisGap⟩
      | cons t front => simp at h
  | case3 text offset scratch cs start hgap =>
      obtain ⟨width, -, hleaves⟩ := leaves_of_skipGap hgap
      exact absurd (hleaves.mem List.mem_cons_self) htext
  | case5 text offset scratch c cs start hgap hc s left hscan token rest left' hrest =>
      rename_i ih
      cases rest with
      | error d => cases h
      | ok rest =>
          obtain ⟨gap, rfl, rfl, hisGap⟩ :=
            isGap_of_skipGap hgap (.inr ⟨rfl, c, cs, rfl, hc⟩)
          obtain ⟨piece, hpiece, hwidth, -⟩ := scansAlone_of_scanToken hgap hc hscan
          cases front with
          | nil =>
              obtain ⟨-, rfl⟩ := List.cons.inj (Except.ok.inj h)
              obtain ⟨front, stop, hnil, -⟩ := exists_front_of_scanFrom (congrArg Prod.fst hrest)
              simp at hnil
          | cons t front =>
              obtain ⟨rfl, rfl⟩ := List.cons.inj (Except.ok.inj h)
              rw [hpiece, ← List.append_assoc] at htext ⊢
              rw [List.append_nil] at hisGap
              have hseparated := ih (fun hmem => htext (List.mem_append_right _ hmem))
                (congrArg Prod.fst hrest)
              refine .cons hisGap rfl ?_ hseparated
              rw [byteLength_append, hwidth, ← Nat.add_assoc]

theorem Ranged.lt_of_mem {first last : Nat} {tokens : List Token} (h : Ranged first last tokens)
    {t : Token} (ht : t ∈ tokens) : first ≤ t.span.start ∧ t.span.start < t.span.stop := by
  induction tokens generalizing first with
  | nil => contradiction
  | cons u rest ih =>
      obtain ⟨hfirst, hrest⟩ := h
      rcases List.mem_cons.mp ht with rfl | ht
      · exact hfirst
      · obtain ⟨hstart, hlt⟩ := ih hrest ht
        exact ⟨by omega, hlt⟩

/-- Tokens in a row have no byte in common. -/
theorem Ranged.pairwise {first last : Nat} {tokens : List Token} (h : Ranged first last tokens) :
    tokens.Pairwise fun t u => t.span.stop ≤ u.span.start := by
  induction tokens generalizing first with
  | nil => exact .nil
  | cons t rest ih => exact .cons (fun u hu => (h.2.lt_of_mem hu).1) (ih h.2)

/-- A name is not spelled like a reserved word. -/
theorem ofSpelling?_of_scanPlain? {cs : List Char} {s : Scanned} (h : scanPlain? c cs = some s)
    (hkind : s.kind = .identifier) : Keyword.ofSpelling? (String.ofList s.lexeme) = none := by
  unfold scanPlain? at h
  split at h
  · cases h
    change wordKind _ = _ at hkind
    unfold wordKind at hkind
    split at hkind
    · cases hkind
    · assumption
  · split at h
    · cases h
      cases hkind
    · obtain ⟨⟨spelling, kind⟩, hp, rfl⟩ := Option.map_eq_some_iff.mp h
      have hall : ∀ p ∈ punctuators, p.2 ≠ .identifier := by decide
      exact absurd hkind (hall _ (List.mem_of_find?_eq_some hp))

namespace ScansAlone

theorem ofSpelling?_eq (h : ScansAlone piece .identifier lexeme) :
    Keyword.ofSpelling? (String.ofList lexeme) = none := by
  obtain ⟨-, -, hscan⟩ := h
  exact ofSpelling?_of_scanPlain? (scanPlain?_of_scanToken (hscan 0 .empty) (by simp)) rfl

/-- The piece is a text of one token. -/
theorem tokenize_eq (h : ScansAlone piece kind lexeme) (scratch : TextBuffer) :
    (tokenize (String.ofList piece) scratch).1 =
      .ok [⟨kind, String.ofList lexeme, ⟨0, byteLength piece⟩⟩, .ofEnd (byteLength piece)] := by
  have hscan := h.scanFrom apart_nil 0 scratch scratch
  rw [List.append_nil, IsGap.nil.scanFrom_end, Nat.zero_add] at hscan
  rw [tokenize, String.toList_ofList, hscan]
  rfl

end ScansAlone

/-- The part of a text that is scanned. -/
def scannable (source : List Char) : List Char := source.takeWhile (· ≠ terminator)

theorem scannable_cases (source : List Char) :
    terminator ∉ scannable source ∧
      (source = scannable source ∧ terminator ∉ source ∨
        ∃ after, source = scannable source ++ terminator :: after) := by
  have hnot : terminator ∉ scannable source := fun hmem => by
    simpa using List.mem_takeWhile_imp hmem
  refine ⟨hnot, ?_⟩
  have hsplit : scannable source ++ source.dropWhile (· ≠ terminator) = source :=
    List.takeWhile_append_dropWhile
  cases hrest : source.dropWhile (· ≠ terminator) with
  | nil =>
      rw [hrest, List.append_nil] at hsplit
      exact .inl ⟨hsplit.symm, hsplit ▸ hnot⟩
  | cons c after =>
      have hc : c = terminator := by
        have hhead := List.head?_dropWhile_not (· ≠ terminator) source
        rw [hrest] at hhead
        simpa using hhead
      rw [hrest, hc] at hsplit
      exact .inr ⟨after, hsplit.symm⟩

/-- The tokens of a text are, but for the end, those of its scannable part; the end stands behind
that part, and behind the terminator where there is one. -/
theorem scanFrom_scannable {source : List Char} {tokens : List Token}
    (h : (scanFrom source 0 scratch).1 = .ok tokens) :
    ∃ front stop, tokens = front ++ [.ofEnd stop] ∧
      (∀ t ∈ front, t.kind ≠ .endOfText) ∧
      stop = byteLength (scannable source) + (if terminator ∈ source then 1 else 0) ∧
      (scanFrom (scannable source) 0 scratch).1 =
        .ok (front ++ [.ofEnd (byteLength (scannable source))]) := by
  obtain ⟨hnot, hsource⟩ := scannable_cases source
  obtain ⟨result, hsame, hafter⟩ := scanFrom_terminator 0 scratch hnot
  rw [Nat.zero_add] at hsame
  rcases hsource with ⟨hwhole, hclean⟩ | ⟨after, hwhole⟩
  · rw [← hwhole] at hsame ⊢
    rw [h] at hsame
    generalize htokens : Except.ok tokens = found at hsame
    cases hsame with
    | ok front hfront =>
        obtain rfl := Except.ok.inj htokens
        exact ⟨front, _, rfl, fun t ht => (hfront t ht).1, by rw [if_neg hclean, Nat.add_zero], h⟩
    | error => cases htokens
  · have hmem : terminator ∈ source := by
      rw [hwhole]
      exact List.mem_append_right _ List.mem_cons_self
    have hresult : result = .ok tokens := by
      have hscan := hafter after
      rw [← hwhole] at hscan
      rw [← h, hscan]
    subst hresult
    generalize hscan : (scanFrom (scannable source) 0 scratch).1 = found at hsame ⊢
    generalize htokens : Except.ok tokens = found' at hsame
    cases hsame with
    | ok front hfront =>
        obtain rfl := Except.ok.inj htokens
        exact ⟨front, _, rfl, fun t ht => (hfront t ht).1, by rw [if_pos hmem], rfl⟩
    | error => cases htokens

/-- What stands in the part that is scanned is cut out of the whole text. -/
theorem slice?_of_scannable {source : List Char} {place : Span}
    (h : StandsAt (scannable source) 0 piece place) : slice? source place = some piece := by
  have hwhole := h.append_right (source.dropWhile (· ≠ terminator))
  rw [scannable, List.takeWhile_append_dropWhile] at hwhole
  exact slice?_eq_some_iff.mpr hwhole

/-- A token is cut out with its piece, which is scanned alone to it. -/
theorem exists_slice?_of_scannable {source : List Char} {front : List Token} {last : Token}
    (h : (scanFrom (scannable source) 0 scratch).1 = .ok (front ++ [last])) {t : Token}
    (ht : t ∈ front) (hkind : t.kind ≠ .endOfText) :
    ∃ piece, slice? source t.span = some piece ∧ ScansAlone piece t.kind t.lexeme.toList := by
  obtain ⟨piece, hstands, halone⟩ :=
    scansAlone_of_scanFrom h t (List.mem_append_left _ ht) hkind
  exact ⟨piece, slice?_of_scannable hstands, halone⟩

/-- Nothing is cut out where the tokens end. -/
theorem slice?_stop {source : List Char}
    (hstop : stop = byteLength (scannable source) + if terminator ∈ source then 1 else 0) :
    slice? source ⟨stop, stop⟩ = some [] := by
  rw [slice?_eq_some_iff]
  rcases (scannable_cases source).2 with ⟨hwhole, hclean⟩ | ⟨after, hwhole⟩
  · rw [if_neg hclean, ← hwhole] at hstop
    exact ⟨source, [], by simp, by simp [hstop], rfl⟩
  · rw [if_pos (by rw [hwhole]; simp)] at hstop
    refine ⟨scannable source ++ [terminator], after, by simpa using hwhole, ?_, rfl⟩
    rw [byteLength_append, hstop, Nat.zero_add]
    rfl

/-- The text is cut into the tokens, of which one more marks the end, and what separates them. -/
structure Segmented (source : List Char) (front : List Token) (stop : Nat) : Prop where
  kinds : ∀ t ∈ front, t.kind ≠ .endOfText
  nonempty : ∀ t ∈ front, t.span.start < t.span.stop
  ordered : front.Pairwise fun t u => t.span.stop ≤ u.span.start
  lexeme : ∀ t ∈ front ++ [.ofEnd stop], t.kind ≠ .string →
    slice? source t.span = some t.lexeme.toList
  gaps : ∀ place ∈ gapPlaces 0 front, ∃ gap, slice? source place = some gap ∧ IsGap gap
  last : ∃ gap, slice? source ⟨lastStop 0 front, byteLength (scannable source)⟩ = some gap ∧
    IsLastGap gap
  stop : stop = byteLength (scannable source) + (if terminator ∈ source then 1 else 0)
  alone : ∀ t ∈ front, ∃ piece, slice? source t.span = some piece ∧
    ∀ scratch, (tokenize (String.ofList piece) scratch).1 =
      .ok [⟨t.kind, t.lexeme, ⟨0, byteLength piece⟩⟩, .ofEnd (byteLength piece)]
  names : ∀ t ∈ front, t.kind = .identifier → ∀ word : Keyword, t.lexeme ≠ word.spelling

/-- The tokens of a text and what separates them make up all of it that is scanned. -/
theorem segmented_of_tokenize {source : String} {scratch : TextBuffer} {tokens : List Token}
    (h : (tokenize source scratch).1 = .ok tokens) :
    ∃ front stop, tokens = front ++ [.ofEnd stop] ∧ Segmented source.toList front stop := by
  obtain ⟨front, stop, rfl, hkinds, hstop, hscan⟩ := scanFrom_scannable h
  have hranged := ranged_of_scanFrom hscan
  have hseparated := separated_of_scanFrom (scannable_cases _).1 hscan
  have hpiece : ∀ t ∈ front, ∃ piece, slice? source.toList t.span = some piece ∧
      ScansAlone piece t.kind t.lexeme.toList :=
    fun t ht => exists_slice?_of_scannable hscan ht (hkinds t ht)
  refine ⟨front, stop, rfl, ?_⟩
  refine
    { kinds := hkinds, nonempty := fun t ht => (hranged.lt_of_mem ht).2,
      ordered := hranged.pairwise, stop := hstop, lexeme := ?lexeme, gaps := ?gaps, last := ?last,
      alone := ?alone, names := ?names }
  case lexeme =>
    intro t ht hkind
    rcases List.mem_append.mp ht with ht | ht
    · obtain ⟨piece, hcut, halone⟩ := hpiece t ht
      rw [hcut, halone.eq_lexeme hkind]
    · obtain rfl := List.mem_singleton.mp ht
      exact slice?_stop hstop
  case gaps =>
    intro place hplace
    obtain ⟨gap, hstands, hgap⟩ := hseparated.gaps place hplace
    exact ⟨gap, slice?_of_scannable hstands, hgap⟩
  case last =>
    obtain ⟨gap, hstands, hgap⟩ := hseparated.last
    rw [Nat.zero_add] at hstands
    exact ⟨gap, slice?_of_scannable hstands, hgap⟩
  case alone =>
    intro t ht
    obtain ⟨piece, hcut, halone⟩ := hpiece t ht
    refine ⟨piece, hcut, fun scratch => ?_⟩
    have halone := halone.tokenize_eq scratch
    rwa [String.ofList_toList] at halone
  case names =>
    intro t ht hname word hword
    obtain ⟨piece, -, halone⟩ := hpiece t ht
    rw [hname] at halone
    have hnone := halone.ofSpelling?_eq
    rw [String.ofList_toList, hword, Keyword.ofSpelling?_spelling] at hnone
    cases hnone

/-- Names and comments of more than one byte a character, and a comment that a terminator ends. -/
theorem segmented_of_tokenize_comments :
    ∃ tokens front stop, (tokenize "né ='b'/* ü */; // x\x00y" .empty).1 = .ok tokens ∧
      tokens = front ++ [.ofEnd stop] ∧
      Segmented "né ='b'/* ü */; // x\x00y".toList front stop := by
  have h : (tokenize "né ='b'/* ü */; // x\x00y" .empty).1 =
      .ok [⟨.identifier, "né", ⟨0, 3⟩⟩, ⟨.assign, "=", ⟨4, 5⟩⟩, ⟨.string, "b", ⟨5, 8⟩⟩,
        ⟨.semicolon, ";", ⟨16, 17⟩⟩, .ofEnd 23] := by decide +kernel
  obtain ⟨front, stop, hsplit, hsegmented⟩ := segmented_of_tokenize h
  exact ⟨_, front, stop, h, hsplit, hsegmented⟩

end ScriptHost
