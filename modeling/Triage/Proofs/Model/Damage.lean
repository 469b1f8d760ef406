/-
Bytes that are not the whole of a model are refused. What a reader takes off does not depend on what
follows, since it is what the writer puts there; so the bytes of a model before its checksum end
where the last layer does: none are the beginning of others (`ofBody_prefix_eq`), whatever checksum
stands behind them. Damage within four places next to one another is found by the checksum.
-/
import Mathlib
import Triage.Proofs.Model.Checksum

namespace Triage

variable {bytes rest : List UInt8}

/-! ## Readers -/

theorem takeBytes_more {n : Nat} {front : List UInt8} (h : takeBytes n bytes = .ok (front, rest))
    (more : List UInt8) : takeBytes n (bytes ++ more) = .ok (front, rest ++ more) := by
  obtain ⟨rfl, rfl⟩ := takeBytes_ok h
  rw [List.append_assoc, takeBytes_append]

theorem takeNumber_more {n v : Nat} (h : takeNumber n bytes = .ok (v, rest))
    (more : List UInt8) : takeNumber n (bytes ++ more) = .ok (v, rest ++ more) := by
  obtain ⟨hv, rfl⟩ := takeNumber_ok h
  rw [List.append_assoc, takeNumber_append hv]

/-- What is taken off is what is written for the layers, and that is taken off whatever follows. -/
theorem takeLayers_more {index n : Nat} {ls : List StoredLayer}
    (h : takeLayers index n bytes = .ok (ls, rest)) (more : List UInt8) :
    takeLayers index n (bytes ++ more) = .ok (ls, rest ++ more) := by
  obtain ⟨rfl, hsound, front, hfront, rfl⟩ := takeLayers_ok h
  have htake := takeLayers_append (fun l hl => (hsound l hl).sized) hfront index
  rw [htake] at h
  obtain ⟨hfault, -⟩ := unlessFault_eq_ok.1 h
  rw [List.append_assoc, htake, hfault]
  rfl

/-! ## Models -/

namespace Model

/-- Bytes behind the last layer are not read as part of the model, and so are refused. -/
theorem ofBody_more {m : Model} (h : ofBody bytes = .ok m) {more : List UInt8} (hne : more ≠ []) :
    ofBody (bytes ++ more) = .error (.trailing more.length) := by
  -- The fields in order: the magic bytes, the version, the number of layers, the layers.
  obtain ⟨⟨mark, r₁⟩, htake₁, h⟩ := ok_of_bind h
  obtain ⟨hmark, h⟩ := ok_of_check h
  obtain ⟨⟨version, r₂⟩, htake₂, h⟩ := ok_of_bind h
  obtain ⟨hversion, h⟩ := ok_of_check h
  obtain ⟨⟨count, r₃⟩, htake₃, h⟩ := ok_of_bind h
  obtain ⟨hzero, h⟩ := ok_of_check h
  obtain ⟨⟨layers, r₄⟩, htake₄, h⟩ := ok_of_bind h
  obtain ⟨hrest, -⟩ := ok_of_check h
  have hmore : r₄ ++ more = more := by rw [Decidable.not_not.1 hrest, List.nil_append]
  unfold ofBody
  simp only [takeBytes_more htake₁, takeNumber_more htake₂, takeNumber_more htake₃,
    takeLayers_more htake₄, ok_bind, hmark, hversion, hzero, if_false, hmore]
  rw [if_pos hne]
  rfl

/-- No bytes before a checksum are the beginning of others. -/
theorem ofBody_prefix_eq {m n : Model} {other : List UInt8} (h : ofBody bytes = .ok m)
    (ho : ofBody other = .ok n) (hp : bytes <+: other) : bytes = other := by
  obtain ⟨more, rfl⟩ := hp
  by_contra hne
  have hmore : more ≠ [] := fun e => hne (by rw [e, List.append_nil])
  rw [ofBody_more h hmore] at ho
  cases ho

theorem ofBytes_prefix_eq {m n : Model} {other : List UInt8} (h : ofBytes bytes = .ok m)
    (ho : ofBytes other = .ok n) (hp : bytes <+: other) : bytes = other := by
  obtain ⟨hlong, -, hbody⟩ := parts_of_ofBytes h
  obtain ⟨hlong', -, hbody'⟩ := parts_of_ofBytes ho
  have hle := hp.length_le
  have hbodies : bytes.take (bytes.length - 4) <+: other.take (other.length - 4) :=
    (List.take_prefix_take_left (by omega)).trans (hp.take _)
  have heq := congrArg List.length (ofBody_prefix_eq hbody hbody' hbodies)
  rw [List.length_take, List.length_take] at heq
  exact hp.eq_of_length (by omega)

theorem ofBytes_error (h : ∀ m, ofBytes bytes ≠ .ok m) : ∃ f, ofBytes bytes = .error f := by
  cases hread : ofBytes bytes with
  | ok m => exact absurd hread (h m)
  | error f => exact ⟨f, rfl⟩

/-- No bytes that are read as a model are the beginning of others. So the bytes of a model are
refused when some are cut off or put behind them, and what stands before their checksum is refused
when some are, whatever four bytes then stand behind it. -/
theorem prefix_free {m : Model} (h : ofBytes bytes = .ok m) :
    (∀ other n, ofBytes other = .ok n → bytes <+: other → bytes = other) ∧
    (∀ k < bytes.length, ∃ f, ofBytes (bytes.take k) = .error f) ∧
    (∀ more, more ≠ [] → ∃ f, ofBytes (bytes ++ more) = .error f) ∧
    ∀ body trailer, trailer.length = 4 → body ≠ bytes.take (bytes.length - 4) →
      body <+: bytes.take (bytes.length - 4) ∨ bytes.take (bytes.length - 4) <+: body →
      ∃ f, ofBytes (body ++ trailer) = .error f := by
  refine ⟨fun other n ho hp => ofBytes_prefix_eq h ho hp, fun k hk => ?_, fun more hmore => ?_, ?_⟩
  · refine ofBytes_error fun n hn => ?_
    have hp : bytes.take k <+: bytes := List.take_prefix k bytes
    have heq := congrArg List.length (ofBytes_prefix_eq hn h hp)
    rw [List.length_take] at heq
    omega
  · refine ofBytes_error fun n hn => hmore ?_
    exact List.self_eq_append_right.1 (ofBytes_prefix_eq h hn (List.prefix_append bytes more))
  · intro body trailer htrailer hne hp
    refine ofBytes_error fun n hn => hne ?_
    obtain ⟨-, -, hbody⟩ := parts_of_ofBytes h
    obtain ⟨-, -, hother⟩ := parts_of_ofBytes hn
    rw [List.length_append, htrailer, Nat.add_sub_cancel, List.take_left] at hother
    rcases hp with hp | hp
    · exact ofBody_prefix_eq hother hbody hp
    · exact (ofBody_prefix_eq hbody hother hp).symm

/-- Cut off behind the first layer, and with a checksum put behind the checksum. -/
theorem mixedBytes_prefix_free :
    (∃ f, ofBytes (mixedBytes.take 26) = .error f) ∧
    (∃ f, ofBytes (sealed mixedBytes) = .error f) ∧
    ∃ f, ofBytes (sealed (mixedBytes.take 53)) = .error f := by
  obtain ⟨-, hcut, hmore, hbody⟩ := prefix_free ofBytes_mixedBytes
  refine ⟨hcut 26 (by decide), hmore _ (by decide +kernel), hbody _ _ ?_ (by decide) (.inl ?_)⟩
  · exact length_littleEndian 4 _
  · exact List.take_prefix_take_left (by decide)

/-! ## Damage -/

/-- Damage to the bytes of a model within four places next to one another before the checksum, or
anywhere in the checksum, is found. -/
theorem damage_found {m : Model} {start stop : Nat} {damaged : List UInt8}
    (h : ofBytes bytes = .ok m) (hd : DamagedWithin start stop bytes damaged)
    (hplace : stop ≤ start + 4 ∧ stop ≤ bytes.length - 4 ∨ bytes.length - 4 ≤ start) :
    ∃ stored computed, stored ≠ computed ∧
      ofBytes damaged = .error (.checksum stored computed) := by
  obtain ⟨hlong, hsum, -⟩ := parts_of_ofBytes h
  have hne : UInt32.ofNat (ofLittleEndian (damaged.drop (bytes.length - 4))) ≠
      checksum (damaged.take (bytes.length - 4)) := by
    rcases hplace with ⟨h4, hbefore⟩ | hin
    · rw [hd.drop_eq hbefore, hsum]
      exact ((hd.take hbefore).checksum_ne h4).symm
    · rw [hd.take_eq hin, ← hsum]
      intro heq
      refine hd.drop_ne hin (Checksum.ofNat_ofLittleEndian_injective ?_ ?_ heq)
      · rw [List.length_drop, List.length_drop, hd.length]
      · rw [List.length_drop]
        omega
  refine ⟨_, _, hne, ?_⟩
  unfold ofBytes
  rw [if_neg (by rw [hd.length]; omega)]
  simp only [hd.length]
  rw [if_pos hne]

/-- Two of four bytes next to one another before the checksum, and the last byte of the checksum. -/
theorem mixedBytes_damage_found :
    (∃ stored computed, stored ≠ computed ∧
      ofBytes ((mixedBytes.set 44 0).set 47 1) = .error (.checksum stored computed)) ∧
    ∃ stored computed, stored ≠ computed ∧
      ofBytes (mixedBytes.set 57 0) = .error (.checksum stored computed) := by
  have hbefore : DamagedWithin 44 48 mixedBytes ((mixedBytes.set 44 0).set 47 1) := by
    refine ⟨by simp, by decide, fun i hi => ?_⟩
    rw [List.getElem?_set_ne (by omega), List.getElem?_set_ne (by omega)]
  have hin : DamagedWithin 54 58 mixedBytes (mixedBytes.set 57 0) := by
    refine ⟨by simp, by decide, fun i hi => ?_⟩
    rw [List.getElem?_set_ne (by omega)]
  constructor
  · exact damage_found ofBytes_mixedBytes hbefore (.inl (by decide))
  · exact damage_found ofBytes_mixedBytes hin (.inr (by decide))

end Model

end Triage
