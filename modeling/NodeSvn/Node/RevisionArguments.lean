import NodeSvn.Node.Grammar

/-!
# Revision arguments on their way to libsvn

    JS value      convert_revision          an svn::revision, in some memory
                  convert_from_revision     an svn_opt_revision_t
                  libsvn                    reads its kind and one member

A `{number}` fills half of the union.  Where `long` has 64 bits libsvn reads the other half as
well, so the revision depends on what the memory held before.  Everything else that is
accepted keeps its meaning exactly if its number is an integer of the width of its field
(`keepsMeaning_iff`).
-/

namespace NodeSvn

/-- What libsvn reads is what was asked for. -/
def SvnOptRevision.Denotes (w : Width) (r : SvnOptRevision) : RevisionRequest → Prop
  | .keyword x => r.kind.isKeyword = true ∧ x = .ofInt r.kind.code
  | .number n => r.kind = .number ∧ n = .ofInt (r.number w)
  | .date d => r.kind = .date ∧ d = .ofInt r.date

/-- If the value is accepted, libsvn reads what was asked for, whatever the memory held. -/
structure KeepsMeaning (w : Width) (v : Js) : Prop where
  denotes : ∀ before r, revisionValue before v = .ok r →
    ∃ q, v.request = some q ∧ (convertFromRevision r).Denotes w q
  independent : ∀ before before' r r', revisionValue before v = .ok r →
    revisionValue before' v = .ok r' →
    (convertFromRevision r).read w = (convertFromRevision r').read w

section Meaning

variable {w : Width} {v : Js} {q : RevisionRequest} {r : Revision} {before : UnionMemory}

/-- libsvn reads the fields of the `svn::revision`, but for a number of 64 bits. -/
theorem denotes_convertFromRevision (hw : ∀ n, q = .number n → w = .w32) :
    (convertFromRevision r).Denotes w q ↔ q.Denotes r := by
  cases q with
  | keyword x => exact Iff.rfl
  | number n =>
    obtain rfl := hw n rfl
    show _ ∧ n = .ofInt (convertFromRevision r).value.readInt32 ↔ _
    rw [convertFromRevision_value]
    exact Iff.rfl
  | date d =>
    show _ ∧ d = .ofInt (convertFromRevision r).value.readInt64 ↔ _
    rw [convertFromRevision_value]
    exact Iff.rfl

/-- Where `long` has 64 bits, two contents of the memory give two numbers. -/
theorem not_denotes_number (n : JsNumber) :
    ¬ ∀ before r, (RevisionRequest.number n).revision before = .ok r →
      (convertFromRevision r).Denotes .w64 (.number n) := by
  intro h
  have hread : ∀ before : UnionMemory, n = .ofInt (before.writeInt32 n.int32Value).readInt64 := by
    intro before
    have hd : _ ∧
        n = .ofInt (convertFromRevision (.ofNumber before n.int32Value)).value.readInt64 :=
      h before _ rfl
    rw [convertFromRevision_value] at hd
    exact hd.2
  have heq := (hread ⟨0, 0⟩).symm.trans (hread ⟨0, 1⟩)
  exact UnionMemory.readInt64_writeInt32_ne _ (JsNumber.ofInt_inj.mp heq)

/-- What libsvn reads of a revision does not depend on the memory, but for such a number. -/
theorem read_revision (hw : ∀ n, q = .number n → w = .w32) {before' : UnionMemory}
    {r' : Revision} (h : q.revision before = .ok r) (h' : q.revision before' = .ok r') :
    (convertFromRevision r).read w = (convertFromRevision r').read w := by
  cases q with
  | keyword x =>
    obtain rfl : r = r' := Except.ok.inj (h.symm.trans h')
    rfl
  | date d =>
    obtain rfl : r = r' := Except.ok.inj (h.symm.trans h')
    rfl
  | number n =>
    obtain rfl := hw n rfl
    obtain rfl := Except.ok.inj h
    obtain rfl := Except.ok.inj h'
    show (RevisionKind.number, some (convertFromRevision _).value.readInt32) =
      (RevisionKind.number, some (convertFromRevision _).value.readInt32)
    rw [convertFromRevision_value, convertFromRevision_value]
    rfl

/-- **A revision that is accepted keeps its meaning exactly if its number is an integer of the
width of its field, and it is no `{number}` where `long` has 64 bits.** -/
theorem keepsMeaning_iff (w : Width) (v : Js) :
    KeepsMeaning w v ↔ ∀ q, v.request = some q → q.accepted = true →
      q.Kept ∧ ∀ n, q = .number n → w = .w32 := by
  constructor
  · rintro ⟨hdenotes, -⟩ q hq haccepted
    have hall : ∀ before r, q.revision before = .ok r → (convertFromRevision r).Denotes w q := by
      intro before r hr
      obtain ⟨q', hq', hd⟩ := hdenotes before r (revisionValue_eq_ok.mpr ⟨q, hq, hr⟩)
      obtain rfl := Option.some.inj (hq.symm.trans hq')
      exact hd
    have hw : ∀ n, q = .number n → w = .w32 := by
      rintro n rfl
      cases w with
      | w32 => rfl
      | w64 => exact absurd hall (not_denotes_number n)
    obtain ⟨r, hr⟩ := (@RevisionRequest.accepted_iff ⟨0, 0⟩ _).mp haccepted
    exact ⟨(RevisionRequest.denotes_iff hr).mp
      ((denotes_convertFromRevision hw).mp (hall _ r hr)), hw⟩
  · intro h
    refine ⟨fun before r hr => ?_, fun before before' r r' hr hr' => ?_⟩
    · obtain ⟨q, hq, hqr⟩ := revisionValue_eq_ok.mp hr
      obtain ⟨hkept, hw⟩ := h q hq (RevisionRequest.accepted_iff.mpr ⟨r, hqr⟩)
      exact ⟨q, hq, (denotes_convertFromRevision hw).mpr
        ((RevisionRequest.denotes_iff hqr).mpr hkept)⟩
    · obtain ⟨q, hq, hqr⟩ := revisionValue_eq_ok.mp hr
      obtain ⟨q', hq', hqr'⟩ := revisionValue_eq_ok.mp hr'
      obtain rfl := Option.some.inj (hq.symm.trans hq')
      obtain ⟨-, hw⟩ := h q hq (RevisionRequest.accepted_iff.mpr ⟨r, hqr⟩)
      exact read_revision hw hqr hqr'

/-- `{number: 1}` where `long` has 64 bits. -/
theorem not_keepsMeaning_number : ¬ ∀ (w : Width) (v : Js), KeepsMeaning w v := by
  intro h
  refine not_denotes_number (.ofInt 1) fun before r hr => ?_
  obtain ⟨q, hq, hd⟩ := (h .w64 (.object none fun key =>
    some (if key = "number" then .number (.ofInt 1) else .undefined))).denotes before r
      (revisionValue_eq_ok.mpr ⟨_, rfl, hr⟩)
  obtain rfl : RevisionRequest.number (.ofInt 1) = q := Option.some.inj hq
  exact hd

end Meaning

end NodeSvn
