import ControlPlane.Http.Network
import ControlPlane.Http.Percent
import ControlPlane.Proofs.Text.Split
import ControlPlane.Proofs.Text.Utf8
import Mathlib.Data.List.TakeWhile

/-! # Paths and the texts in them

Decoding the percent escapes of a text makes it no longer, and does nothing to a text without a
percent sign. A target behind the authority of a URL that was read is read as a path and a query,
which the request for it carries.
-/
namespace ControlPlane

namespace Percent

theorem length_decodeBytes_le (bytes : Bytes) : (decodeBytes bytes).length ≤ bytes.length := by
  fun_induction decodeBytes bytes with
  | case1 | case2 | case3 => exact Nat.le_refl _
  | case4 a b c rest d hd ih =>
    simp only [List.length_cons] at ih ⊢
    omega
  | case5 a b c rest hnone ih =>
    simp only [List.length_cons] at ih ⊢
    omega

/-- What is decoded is no longer than what it is decoded from. -/
theorem length_encode_le {s t : String} (h : decode? s = some t) :
    (Utf8.encode t).length ≤ (Utf8.encode s).length :=
  (Utf8.length_encode_le h).trans (length_decodeBytes_le _)

theorem decodeBytes_of_not_mem {bytes : Bytes} (h : 0x25 ∉ bytes) : decodeBytes bytes = bytes := by
  fun_induction decodeBytes bytes with
  | case1 | case2 | case3 => rfl
  | case4 a b c rest d hd ih =>
    have ha : a ≠ 0x25 := fun ha => h (ha ▸ List.mem_cons_self)
    rw [if_neg ha] at hd
    cases hd
  | case5 a b c rest hnone ih => rw [ih fun hmem => h (List.mem_cons_of_mem _ hmem)]

/-- A text without a percent sign stands for itself. -/
theorem decode?_of_not_mem {s : String} (h : '%' ∉ s.toList) : decode? s = some s := by
  have hbyte : 0x25 ∉ Utf8.encode s := by
    intro hmem
    obtain ⟨c, hc, hb⟩ := Utf8.mem_encode_iff.1 hmem
    obtain ⟨-, he⟩ | ⟨-, hlarge⟩ := Utf8.toNat_of_mem_encodeChar hb
    · have hpercent : c = '%' := Char.toNat_inj.1 he.symm
      exact h (hpercent ▸ hc)
    · exact absurd hlarge (by decide)
  rw [decode?, decodeBytes_of_not_mem hbyte, Utf8.decode?_encode]

end Percent

namespace Uri

/-- What may stand between the scheme and the path of a URL. -/
structure IsAuthority (cs : List Char) : Prop where
  ne_nil : cs ≠ []
  inside : ∀ c ∈ cs, endsAuthority c = false
  complete : ∃ seen, cs.foldlM Authority.take? {} = some seen ∧ seen.isComplete = true

theorem splitAuthority?_eq_some {cs front rest : List Char}
    (h : splitAuthority? cs = some (front, rest)) :
    front = cs.takeWhile (!endsAuthority ·) ∧ rest = cs.drop front.length ∧
      ∃ seen, front.foldlM Authority.take? {} = some seen ∧ seen.isComplete = true := by
  simp only [splitAuthority?, Option.bind_eq_bind, Option.bind_eq_some_iff] at h
  obtain ⟨seen, hseen, h⟩ := h
  split at h
  · next hcomplete =>
    cases h
    exact ⟨rfl, rfl, seen, hseen, hcomplete⟩
  · cases h

theorem splitScheme_of_none {cs : List Char} (h : (splitScheme cs).1 = none) :
    (splitScheme cs).2 = cs := by
  unfold splitScheme at h ⊢
  split
  · next hrest =>
    rw [hrest] at h
    cases h
  · rfl

theorem isAuthority_of_parse? {url authority : String} {uri : Uri} (h : parse? url = some uri)
    (hauthority : uri.authority = some authority) : IsAuthority authority.toList := by
  have hinside {cs : List Char} : ∀ c ∈ cs.takeWhile (!endsAuthority ·), endsAuthority c = false :=
    fun c hc => by
    simpa using List.mem_takeWhile_imp hc
  rw [parse?] at h
  split at h
  · cases h
  unfold parseChars? at h
  split at h
  · cases h
  · cases h
    cases hauthority
  · simp only [Option.bind_eq_bind, Option.bind_eq_some_iff] at h
    obtain ⟨_, -, h⟩ := h
    cases h
    cases hauthority
  · next hne _ _ =>
    simp only [Option.bind_eq_bind, Option.bind_eq_some_iff] at h
    obtain ⟨⟨front, rest⟩, hsplit, h⟩ := h
    obtain ⟨hfront, hrest, hcomplete⟩ := splitAuthority?_eq_some hsplit
    dsimp only at h
    split at h
    · next hscheme =>
      split at h
      · next hempty =>
        cases h
        cases hauthority
        rw [String.toList_ofList]
        refine ⟨fun hnil => hne ?_, hfront ▸ hinside, hcomplete⟩
        -- Without a scheme the authority is the whole text.
        rw [splitScheme_of_none hscheme, hnil] at hrest
        rw [← List.isEmpty_iff.1 hempty, hrest]
        rfl
      · cases h
    · split at h
      · cases h
      · next hsizes =>
        obtain ⟨p, -, hp⟩ := Option.bind_eq_some_iff.1 h
        cases hp
        cases hauthority
        rw [String.toList_ofList]
        exact ⟨fun hnil => hsizes (by simp [hnil]), hfront ▸ hinside, hcomplete⟩

/-- A target below an authority is read as a path and a query. -/
theorem parse?_base {authority target : String} {rest : List Char}
    (h : IsAuthority authority.toList) (htarget : target.toList = '/' :: rest) :
    parse? ("http://" ++ authority ++ target) =
      if maxSize < ("http://" ++ authority ++ target).utf8ByteSize then none
      else (pathAndQuery? target.toList).map fun p =>
        { scheme := some "http", authority := some authority, path := p.1, query := p.2 } := by
  rw [parse?]
  split
  · rfl
  obtain ⟨seen, hseen, hcomplete⟩ := h.complete
  have hchars : ("http://" ++ authority ++ target).toList =
      'h' :: 't' :: 't' :: 'p' :: ':' :: '/' :: '/' :: (authority.toList ++ '/' :: rest) := by
    simp [htarget]
  have hscheme (cs : List Char) :
      splitScheme ('h' :: 't' :: 't' :: 'p' :: ':' :: '/' :: '/' :: cs) = (some "http", cs) := rfl
  have hfront :
      (authority.toList ++ '/' :: rest).takeWhile (!endsAuthority ·) = authority.toList := by
    rw [List.takeWhile_append_of_pos fun c hc => by
      simp [h.inside c hc], List.takeWhile_cons_of_neg (by decide), List.append_nil]
  have hsplit :
      splitAuthority? (authority.toList ++ '/' :: rest) = some (authority.toList, '/' :: rest) := by
    simp only [splitAuthority?, hfront, hseen, Option.bind_eq_bind, Option.bind_some, hcomplete,
      if_true, List.drop_left]
    rfl
  have hsizes : (authority.toList.isEmpty || decide (maxScheme < "http".length)) = false := by
    rw [List.isEmpty_eq_false_iff.2 h.ne_nil]
    rfl
  rw [hchars, parseChars?, hscheme, htarget]
  · simp only [hsplit, Option.bind_eq_bind, Option.bind_some, hsizes, Bool.false_eq_true, if_false,
      String.ofList_toList]
    cases pathAndQuery? ('/' :: rest) <;> rfl
  all_goals simp

theorem toList_path {cs : List Char} {path : String} {query : Option String}
    (h : pathAndQuery? cs = some (path, query)) : path.toList = cs.takeWhile isPathChar := by
  unfold pathAndQuery? at h
  dsimp only at h
  split at h
  · cases h
    exact String.toList_ofList
  · cases h
    exact String.toList_ofList
  · split at h
    · cases h
      exact String.toList_ofList
    · cases h
      exact String.toList_ofList
    · cases h
  · cases h

theorem pathAndQuery?_of_forall {cs : List Char} (h : ∀ c ∈ cs, isPathChar c = true) :
    pathAndQuery? cs = some (String.ofList cs, none) := by
  rw [pathAndQuery?, List.takeWhile_eq_self_iff.2 h, List.drop_length]

theorem pathAndQuery?_append_query {cs query : List Char} (h : ∀ c ∈ cs, isPathChar c = true)
    (hquery : ∀ c ∈ query, isQueryChar c = true) :
    pathAndQuery? (cs ++ '?' :: query) = some (String.ofList cs, some (String.ofList query)) := by
  have hpath : (cs ++ '?' :: query).takeWhile isPathChar = cs := by
    rw [List.takeWhile_append_of_pos h, List.takeWhile_cons_of_neg (by decide), List.append_nil]
  have hrest : query.takeWhile isQueryChar = query := List.takeWhile_eq_self_iff.2 hquery
  simp only [pathAndQuery?, hpath, List.drop_left, hrest, List.drop_length]

end Uri

namespace Http

/-- The request for a target below an authority, if its URL is not too long and the target
has a path and a query. -/
theorem Request.ofUrl?_base {authority target : String} {rest : List Char}
    (h : Uri.IsAuthority authority.toList) (htarget : target.toList = '/' :: rest) (method : String)
    (headers : List (String × String)) (body : Bytes) :
    ofUrl? method ("http://" ++ authority ++ target) headers body =
      if Uri.maxSize < ("http://" ++ authority ++ target).utf8ByteSize then none
      else (Uri.pathAndQuery? target.toList).map fun p =>
        { method
          path := p.1
          query := p.2
          headers
          body
          canUpgrade := headers.any (·.1 == "upgrade") } := by
  rw [ofUrl?, Uri.parse?_base h htarget]
  split
  · rfl
  cases hp : Uri.pathAndQuery? target.toList with
  | none => rfl
  | some p =>
    have hpath : p.1.isEmpty = false := by
      rw [Bool.eq_false_iff, Ne, String.isEmpty_iff]
      intro hempty
      have hchars := Uri.toList_path hp
      rw [hempty, htarget, List.takeWhile_cons_of_pos (by decide)] at hchars
      cases hchars
    simp only [Option.map_some, Option.bind_eq_bind, Option.bind_some, hpath]
    rfl

end Http
end ControlPlane
