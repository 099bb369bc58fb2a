import HomeServices.Gateway.Routes
import HomeServices.Identity.SignedTokens

/-!
# The session cookie

What a client sends back is what the gateway set, and the extractor reads it whole.

* `cookieHeaders`: the headers of a request with one session cookie; `Plain`: its possible values.
* **`extractSessionCookie_plain`**, `extractSessionCookie_encodeString`: the extractor finds the value.
* `setSessionCookie_inj`: cookies of different tokens differ.
-/

namespace Gateway

open Identity (Bytes Printable asBytes headerText stripPrefix)

/-- The text of a cookie header with a session cookie. -/
def cookieText (v : String) : String := sessionCookie ++ "=" ++ v

/-- The headers of a request with the session cookie `v`. -/
def cookieHeaders (v : String) : HeaderMap := [("cookie", asBytes (cookieText v))]

/-- Free of `;` and white space. -/
def Plain (v : String) : Prop := ∀ c ∈ v.toList, c ≠ ';' ∧ c.isWhitespace = false

theorem plain_cookieText {v : String} (hv : Plain v) : Plain (cookieText v) := by
  intro c hc
  rw [cookieText, String.toList_append] at hc
  rcases List.mem_append.mp hc with hc | hc
  · have hname : Plain (sessionCookie ++ "=") := List.all_iff_forall_prop.mp (by decide)
    exact hname c hc
  · exact hv c hc

theorem dropWhile_eq_self {p : Char → Bool} {cs : List Char} (h : ∀ c ∈ cs, p c = false) :
    cs.dropWhile p = cs := by
  cases cs with
  | nil => rfl
  | cons c cs => rw [List.dropWhile_cons, h c List.mem_cons_self, if_neg Bool.false_ne_true]

theorem trim_plain {s : String} (hs : Plain s) : trim s = s := by
  have hspace : ∀ c ∈ s.toList, c.isWhitespace = false := fun c hc => (hs c hc).2
  rw [trim, dropWhile_eq_self hspace,
    dropWhile_eq_self (fun c hc => hspace c (List.mem_reverse.mp hc)), List.reverse_reverse,
    String.ofList_toList]

theorem findSessionCookie_plain {v : String} (hv : Plain v) : findSessionCookie [cookieText v] = .ok v := by
  rw [findSessionCookie, trim_plain (plain_cookieText hv), cookieText, String.append_assoc,
    Identity.stripPrefix_append]
  simp only [Identity.stripPrefix_append]

/-- **The extractor reads a plain value whole, or rejects the header as not text.** -/
theorem extractSessionCookie_plain {v : String} (hv : Plain v) : extractSessionCookie (cookieHeaders v) =
    if (headerText (asBytes (cookieText v))).isSome then .ok v else .error .unauthorized := by
  have hlookup : (cookieHeaders v).lookup "cookie" = some (asBytes (cookieText v)) := rfl
  rw [extractSessionCookie, hlookup]
  dsimp only
  cases htext : headerText (asBytes (cookieText v)) with
  | none => rfl
  | some text =>
    obtain rfl := Identity.asBytes_inj (Identity.asBytes_of_headerText htext)
    have hsplit : (cookieText v).toList.splitOn ';' = [(cookieText v).toList] :=
      List.splitOnP_eq_singleton fun c hc => beq_false_of_ne (plain_cookieText hv c hc).1
    dsimp only
    rw [hsplit, List.map_singleton, String.ofList_toList, findSessionCookie_plain hv]
    rfl

/-! ## Tokens in cookies -/

theorem plain_digit (n : ℕ) : Base64Url.digit n ≠ ';' ∧ (Base64Url.digit n).isWhitespace = false := by
  unfold Base64Url.digit
  split_ifs with h1 h2 h3
  · have all : ∀ n : Fin 26, Char.ofNat (n + 65) ≠ ';' ∧ (Char.ofNat (n + 65)).isWhitespace = false := by
      decide
    exact all ⟨n, h1⟩
  · have all : ∀ n : Fin 52, Char.ofNat (n + 71) ≠ ';' ∧ (Char.ofNat (n + 71)).isWhitespace = false := by
      decide
    exact all ⟨n, h2⟩
  · have all : ∀ n : Fin 62, 52 ≤ n.val →
        Char.ofNat (n - 4) ≠ ';' ∧ (Char.ofNat (n - 4)).isWhitespace = false := by decide
    exact all ⟨n, h3⟩ (not_lt.mp h2)
  · decide
  · decide

theorem plain_encode : ∀ bs : Bytes, ∀ c ∈ Base64Url.encode bs, c ≠ ';' ∧ c.isWhitespace = false
  | [] => by simp [Base64Url.encode]
  | [_] => by simp [Base64Url.encode, plain_digit]
  | [_, _] => by simp [Base64Url.encode, plain_digit]
  | _ :: _ :: _ :: rest => by
    simp only [Base64Url.encode, List.mem_cons]
    rintro c (rfl | rfl | rfl | rfl | hc)
    · exact plain_digit _
    · exact plain_digit _
    · exact plain_digit _
    · exact plain_digit _
    · exact plain_encode rest c hc

theorem plain_encodeString (bs : Bytes) : Plain (Base64Url.encodeString bs) := by
  intro c hc
  rw [Base64Url.toList_encodeString] at hc
  exact plain_encode bs c hc

/-- The extractor finds a token in its cookie. -/
theorem extractSessionCookie_encodeString (bs : Bytes) :
    extractSessionCookie (cookieHeaders (Base64Url.encodeString bs)) = .ok (Base64Url.encodeString bs) := by
  have hprintable : ∀ c ∈ (cookieText (Base64Url.encodeString bs)).toList, Printable c := by
    intro c hc
    rw [cookieText, String.toList_append, Base64Url.toList_encodeString] at hc
    rcases List.mem_append.mp hc with hc | hc
    · have hname : ∀ c ∈ (sessionCookie ++ "=").toList, Printable c :=
        List.all_iff_forall_prop.mp (by decide)
      exact hname c hc
    · exact Identity.printable_encode bs c hc
  rw [extractSessionCookie_plain (plain_encodeString bs), Identity.headerText_asBytes hprintable]
  rfl

theorem encodeString_inj {bs bs' : Bytes} (h : Base64Url.encodeString bs = Base64Url.encodeString bs') :
    bs = bs' := by
  have hdecode := congrArg Base64Url.decodeVec h
  rw [Base64Url.decodeVec_encodeString, Base64Url.decodeVec_encodeString] at hdecode
  exact Option.some.inj hdecode

/-- Cookies of different tokens differ. -/
theorem setSessionCookie_inj {v v' : String} (h : setSessionCookie v = setSessionCookie v') : v = v' := by
  unfold setSessionCookie at h
  simpa [String.append_left_inj, String.append_right_inj] using h

end Gateway
