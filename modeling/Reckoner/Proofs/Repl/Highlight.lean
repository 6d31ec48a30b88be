import Reckoner.Proofs.Repl.Pieces
import Reckoner.Proofs.Span
import Reckoner.Repl.Highlight

/-!
Colours change nothing in a line. The pieces that are painted follow each other from the front of the line to its end,
so put together they are the line. That holds of any tokens that are reported from left to right and end between
characters, as those of a line do.
-/
namespace Reckoner.Repl

/-- The spans begin at a place, each where the one before it ended, and end at another. -/
def Tiles : Nat → List Span → Nat → Prop
  | start, [], stop => start = stop
  | start, span :: rest, stop => span.start = start ∧ Tiles span.stop rest stop

/-- Tokens are reported from left to right, none of them over another, and none begins or ends inside a character. -/
structure Reported (line : String) (tokens : List (Token × Span)) : Prop where
  apart : tokens.Pairwise fun one two => one.2.stop ≤ two.2.start
  fits : ∀ token ∈ tokens, token.2.Fits line

/-- A piece of a line and where it is. -/
structure Patch where
  place : Span
  style : Style
  text : String

/-- The patches cover the line from a place to its end, and each token has one. -/
structure Painted (line : String) (start : Nat) (tokens : List (Token × Span)) (patches : List Patch) : Prop where
  tiles : Tiles start (patches.map (·.place)) line.utf8ByteSize
  reads : ∀ patch ∈ patches, patch.place.Fits line ∧ patch.place.text? line = some patch.text
  tokens : (tokens.map fun (token, span) => (span, token.style)).Sublist
    (patches.map fun patch => (patch.place, patch.style))

/-- The pieces are the line when put together, and are cut from it one behind the other, with one for each token. -/
def Keeps (line : String) (tokens : List (Token × Span)) (pieces : List (Style × String)) : Prop :=
  String.join (pieces.map (·.2)) = line ∧
    ∃ patches, pieces = patches.map (fun patch => (patch.style, patch.text)) ∧ Painted line 0 tokens patches

variable {line : String} {start middle stop : Nat} {tokens : List (Token × Span)} {patches : List Patch}

theorem Tiles.append {spans more : List Span} (one : Tiles start spans middle) (two : Tiles middle more stop) :
    Tiles start (spans ++ more) stop := by
  induction spans generalizing start with
  | nil =>
    obtain rfl : start = middle := one
    exact two
  | cons span rest ih => exact ⟨one.1, ih one.2⟩

/-- Patches that cover what is behind a place have its characters. -/
private theorem flatMap_of_tiles (tiles : Tiles start (patches.map (·.place)) line.utf8ByteSize)
    (reads : ∀ patch ∈ patches, patch.place.text? line = some patch.text) {before after : List Char}
    (split : line.toList = before ++ after) (size : Span.bytes before = start) :
    patches.flatMap (·.text.toList) = after := by
  induction patches generalizing start before after with
  | nil =>
    have none : Span.bytes after = 0 := by
      have all := Span.bytes_toList line
      rw [split, Span.bytes_append, size] at all
      have ends : start = line.utf8ByteSize := tiles
      omega
    exact (Span.bytes_eq_zero none).symm
  | cons patch rest ih =>
    obtain ⟨begins, later⟩ := tiles
    obtain ⟨front, back, whole, starts, stops⟩ :=
      Span.split_of_text? (reads patch List.mem_cons_self)
    -- as many bytes in front, so the same characters in front
    obtain ⟨rfl, rfl⟩ : front = before ∧ patch.text.toList ++ back = after := by
      have same := Span.splitAt?_bytes front (patch.text.toList ++ back)
      rw [← List.append_assoc, ← whole, split, starts, begins, ← size, Span.splitAt?_bytes] at same
      cases same
      exact ⟨rfl, rfl⟩
    rw [List.flatMap_cons, ih later (fun patch mem => reads patch (List.mem_cons_of_mem _ mem)) whole
      (by rw [Span.bytes_append, starts, stops])]

theorem Painted.join (painted : Painted line 0 tokens patches) : String.join (patches.map (·.text)) = line := by
  apply String.toList_inj.mp
  rw [String.toList_join, List.flatMap_map]
  exact flatMap_of_tiles painted.tiles (fun patch mem => (painted.reads patch mem).2) (List.nil_append _).symm rfl

/-- Between two places there is one patch, or none if they are the same. -/
private theorem exists_gap (one : Span.Boundary line start) (two : Span.Boundary line stop) (ordered : start ≤ stop) :
    ∃ patches : List Patch, gap? line start stop = some (patches.map fun patch => (patch.style, patch.text)) ∧
      Tiles start (patches.map (·.place)) stop ∧
      ∀ patch ∈ patches, patch.place.Fits line ∧ patch.place.text? line = some patch.text := by
  by_cases some : start < stop
  · have fits : Span.Fits line ⟨start, stop⟩ := ⟨one, two, ordered⟩
    obtain ⟨text, read⟩ := Span.fits_iff.mp fits
    refine ⟨[⟨⟨start, stop⟩, .plain, text⟩], ?_, ⟨rfl, rfl⟩, ?_⟩
    · rw [gap?, if_pos some, read]
      rfl
    · rintro patch (_ | ⟨_, ⟨⟩⟩)
      exact ⟨fits, read⟩
  · refine ⟨[], ?_, Nat.le_antisymm ordered (Nat.not_lt.mp some), nofun⟩
    rw [gap?, if_neg some]
    rfl

/-- The painter gets from the end of one token to the end of the next, and from the last one to the end of the line. -/
private theorem exists_painted (reported : Reported line tokens) (here : Span.Boundary line start)
    (ahead : ∀ token ∈ tokens, start ≤ token.2.start) :
    ∃ patches : List Patch, paint? line start tokens = some (patches.map fun patch => (patch.style, patch.text)) ∧
      Painted line start tokens patches := by
  induction tokens generalizing start with
  | nil =>
    obtain ⟨patches, painted, tiles, reads⟩ := exists_gap here (Span.fits_whole line).stop here.le_size
    exact ⟨patches, painted, tiles, reads, List.nil_sublist _⟩
  | cons first rest ih =>
    obtain ⟨token, span⟩ := first
    obtain ⟨fits, others⟩ := List.forall_mem_cons.mp reported.fits
    obtain ⟨behind, apart⟩ := List.pairwise_cons.mp reported.apart
    obtain ⟨gap, skipped, tiles, reads⟩ := exists_gap here fits.start (ahead _ List.mem_cons_self)
    obtain ⟨text, read⟩ := Span.fits_iff.mp fits
    obtain ⟨later, painted, laid⟩ := ih ⟨apart, others⟩ fits.stop behind
    refine ⟨gap ++ ⟨span, token.style, text⟩ :: later, ?_, ?_, ?_, ?_⟩
    · simp only [paint?, skipped, read, painted, Option.bind_eq_bind, Option.bind_some, Option.pure_def,
        List.map_append, List.map_cons]
    · rw [List.map_append]
      exact tiles.append ⟨rfl, laid.tiles⟩
    · exact List.forall_mem_append.mpr ⟨reads, List.forall_mem_cons.mpr ⟨⟨fits, read⟩, laid.reads⟩⟩
    · rw [List.map_append, List.map_cons, List.map_cons]
      exact (laid.tokens.cons_cons _).trans (List.sublist_append_right _ _)

private theorem exists_keeps (reported : Reported line tokens) :
    ∃ pieces, paint? line 0 tokens = some pieces ∧ Keeps line tokens pieces := by
  obtain ⟨patches, painted, laid⟩ := exists_painted reported (Span.boundary_zero line) fun _ _ => Nat.zero_le _
  refine ⟨_, painted, ?_, patches, rfl, laid⟩
  rw [List.map_map]
  exact laid.join

namespace Token

theorem Cut.flatMap_text {cs : List Char} {pieces : List Piece} (cut : Cut cs pieces) :
    pieces.flatMap (·.text) = cs := by
  induction cut with
  | done => rfl
  | next _ _ ih => rw [List.flatMap_cons, ih]

/-- The places of pieces that make up the rest of a line. -/
private theorem withSpans_placed {pieces : List Piece} {before : List Char}
    (split : line.toList = before ++ pieces.flatMap (·.text)) :
    (withSpans (Span.bytes before) pieces).Pairwise (fun one two => one.2.stop ≤ two.2.start) ∧
      ∀ piece ∈ withSpans (Span.bytes before) pieces, Span.bytes before ≤ piece.2.start ∧ piece.2.Fits line := by
  induction pieces generalizing before with
  | nil => exact ⟨.nil, nofun⟩
  | cons piece rest ih =>
    rw [List.flatMap_cons, ← List.append_assoc] at split
    obtain ⟨apart, placed⟩ := ih split
    rw [Span.bytes_append] at apart placed
    refine ⟨.cons (fun other mem => (placed other mem).1) apart, List.forall_mem_cons.mpr ⟨?_, fun other mem => ?_⟩⟩
    · exact ⟨Nat.le_refl _, Span.fits_of_split split⟩
    · exact ⟨Nat.le_of_add_right_le (placed other mem).1, (placed other mem).2⟩

theorem reported_spanned (line : String) : Reported line (spanned line) := by
  have whole : line.toList = [] ++ (pieces line.toList).flatMap (·.text) := (cut_pieces _).flatMap_text.symm
  obtain ⟨apart, placed⟩ := withSpans_placed whole
  have place {one : Piece × Span} {token : Token × Span}
      (isToken : (if one.1.token = gap then none else some (one.1.token, one.2)) = some token) :
      token.2 = one.2 := by
    split at isToken
    · cases isToken
    · exact congrArg Prod.snd (Option.some.inj isToken).symm
  constructor
  · refine apart.filterMap _ fun one two behind token isToken token' isToken' => ?_
    rw [place isToken, place isToken']
    exact behind
  · intro token mem
    obtain ⟨piece, mem, isToken⟩ := List.mem_filterMap.mp mem
    rw [place isToken]
    exact (placed piece mem).2

end Token

/-- Painting never changes a line, whichever tokens are reported in it. The tokens of a line are reported as they have
to be, so it is highlighted without losing or adding anything. -/
theorem highlight_keeps :
    (∀ line tokens, Reported line tokens → ∃ pieces, paint? line 0 tokens = some pieces ∧ Keeps line tokens pieces) ∧
    ∀ line, Reported line (Token.spanned line) ∧ paint? line 0 (Token.spanned line) = some (highlight line) ∧
      Keeps line (Token.spanned line) (highlight line) := by
  refine ⟨fun _ _ => exists_keeps, fun line => ?_⟩
  have reported := Token.reported_spanned line
  obtain ⟨pieces, painted, keeps⟩ := exists_keeps reported
  have same : highlight line = pieces := by
    rw [highlight, painted]
    rfl
  rw [same]
  exact ⟨reported, painted, keeps⟩

/-- The unknown character takes two bytes, and a text that is not closed takes the rest of the line. -/
theorem highlight_keeps_unclosed :
    Reported "é + \"ü " [(.error, ⟨0, 2⟩), (.operator, ⟨3, 4⟩), (.error, ⟨5, 9⟩)] ∧
      (∃ pieces, paint? "é + \"ü " 0 [(.error, ⟨0, 2⟩), (.operator, ⟨3, 4⟩), (.error, ⟨5, 9⟩)] = some pieces ∧
        Keeps "é + \"ü " [(.error, ⟨0, 2⟩), (.operator, ⟨3, 4⟩), (.error, ⟨5, 9⟩)] pieces) ∧
      Keeps "é + \"ü " (Token.spanned "é + \"ü ") (highlight "é + \"ü ") := by
  have reported : Reported "é + \"ü " [(.error, ⟨0, 2⟩), (.operator, ⟨3, 4⟩), (.error, ⟨5, 9⟩)] := by
    refine ⟨by decide, List.forall_mem_cons.mpr ⟨?_, List.forall_mem_cons.mpr ⟨?_, List.forall_mem_singleton.mpr ?_⟩⟩⟩
    · exact Span.fits_iff.mpr ⟨"é", rfl⟩
    · exact Span.fits_iff.mpr ⟨"+", rfl⟩
    · exact Span.fits_iff.mpr ⟨"\"ü ", rfl⟩
  exact ⟨reported, highlight_keeps.1 _ _ reported, (highlight_keeps.2 _).2.2⟩

end Reckoner.Repl
