import Sylar.Uri.Extraction

/-!
# Decomposition

Every text from which `Uri::Create` makes something with a scheme is a reference that is put
together from components of the grammar.
-/

namespace Sylar.Uri

open Library Library.Ragel Library.Ragel.Machine UriParser

variable {text : Text} {n : Nat}

/-! ### Texts that are read -/

/-- What the optional userinfo reads is one, or nothing. -/
theorem userinfo_split (accepted : accepts [opt (userinfoAt n)] text = true) :
    ∃ userinfo, text = userinfoText userinfo ∧ ∀ u ∈ userinfo, Fits UriParser.userinfo u := by
  rw [Machine.opt, accepts_alt, Bool.or_eq_true] at accepted
  rcases accepted with present | absent
  · obtain ⟨front, behind, rfl, read, signed⟩ := accepts_cat.mp present
    obtain ⟨byte, isSign, rfl⟩ := accepts_one.mp signed
    obtain rfl := beq_iff_eq.mp isSign
    refine ⟨some front, rfl, ?_⟩
    rintro u ⟨⟩
    exact accepts_leaving.symm.trans read
  · obtain rfl := accepts_lambda.mp absent
    refine ⟨none, rfl, ?_⟩
    rintro u ⟨⟩

/-- The parts of what an authority reads. -/
theorem authority_split (accepted : accepts [authorityAt n] text = true) :
    ∃ userinfo host port, text = userinfoText userinfo ++ (host ++ part 58 port) ∧
      (∀ u ∈ userinfo, Fits UriParser.userinfo u) ∧ Fits UriParser.host host ∧
        ∀ p ∈ port, Fits UriParser.port p := by
  rw [authorityAt, accepts_entering] at accepted
  obtain ⟨front, rest, rfl, user, read⟩ := accepts_cat.mp accepted
  obtain ⟨host, behind, rfl, hostRead, portRead⟩ := accepts_cat.mp read
  obtain ⟨userinfo, rfl, fitsUser⟩ := userinfo_split user
  obtain ⟨port, rfl, fitsPort⟩ := part_split portRead
  exact ⟨userinfo, host, port, rfl, fitsUser, accepts_field.symm.trans hostRead, fitsPort⟩

/-- What is read as `URI` is put together from its components. -/
theorem shaped_of_absolute (accepted : accepts [absoluteAt] text = true) :
    ∃ r : Reference, r.Shaped ∧ r.text = text ∧ r.front ≠ .relative := by
  obtain ⟨scheme, _, rfl, schemeRead, signed⟩ := accepts_cat.mp accepted
  have fitsScheme : Fits schemeText scheme := accepts_field.symm.trans schemeRead
  obtain ⟨_, rfl, behind⟩ := char_split signed
  obtain ⟨hier, _, rfl, hierRead, tailRead⟩ := accepts_cat.mp behind
  obtain ⟨query, fragment, rfl, fitsQuery, fitsFragment⟩ := tail_split tailRead
  rw [accepts_alt, Bool.or_eq_true] at hierRead
  rcases hierRead with network | fitsPath
  · obtain ⟨_, rfl, slashed⟩ := char_split network
    obtain ⟨_, rfl, others⟩ := char_split slashed
    obtain ⟨_, path, rfl, authorityRead, pathRead⟩ := accepts_cat.mp others
    obtain ⟨userinfo, host, port, rfl, fitsUser, fitsHost, fitsPort⟩ :=
      authority_split authorityRead
    have fitsPath : Fits pathAbempty path := accepts_field.symm.trans pathRead
    refine ⟨⟨.authority scheme userinfo host port, path, query, fragment⟩, ⟨⟨?_, fitsQuery,
      fitsFragment⟩, fitsPort⟩, ?_, by simp⟩
    · exact ⟨fitsScheme, fitsUser, fitsHost, by rintro p ⟨⟩, fitsPath⟩
    · simp [Reference.text, Front.text, Reference.tail]
  · refine ⟨⟨.plain scheme, hier, query, fragment⟩, ⟨⟨⟨fitsScheme, fitsPath⟩, fitsQuery,
      fitsFragment⟩, by rintro p ⟨⟩⟩, ?_, by simp⟩
    simp [Reference.text, Front.text, Reference.tail]

/-- What is created with a scheme is created from a reference of the grammar. -/
theorem shaped_of_create {uri : Uri} (created : create text = .ok (some uri))
    (some_ : uri.scheme ≠ []) : ∃ r : Reference, r.Shaped ∧ r.text = text ∧ r.front ≠ .relative :=
  shaped_of_absolute (absolute_of_create created some_)

end Sylar.Uri
