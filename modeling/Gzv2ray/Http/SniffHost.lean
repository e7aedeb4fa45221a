import Gzv2ray.Http.Sniff

/-!
# The host of a request

Whether the host that is sniffed is that of the first Host header of a request,
whatever the body is, and is never another one while the request is not there
as far as that header (`Request.Sniffed`).

The scanner stops at an empty line only. The blank line of a request whose lines
end in CR LF is not empty, so it scans the body as well; and it takes a Host
header for whole that is not ended yet. `sniffed_iff` says for which requests
this does no harm.
-/

namespace Gzv2ray.Http

/-! ## Requests -/

/-- A line that belongs to a header section, without its line feed. -/
def IsHeader (line : Bytes) : Prop := lf ∉ line ∧ line ≠ [] ∧ line ≠ [cr]

instance (line : Bytes) : Decidable (IsHeader line) := inferInstanceAs (Decidable (_ ∧ _))

/-- A complete header section with a Host header, and the bytes that follow it. Every line may end
    in a carriage return. -/
structure Request (lib : Library) where
  requestLine : Bytes
  before : List Bytes
  /-- The first Host header. -/
  hostLine : Bytes
  value : Bytes
  after : List Bytes
  blank : Bytes
  body : Bytes
  lf_notMem_requestLine : lf ∉ requestLine
  isHeader_before : ∀ line ∈ before, IsHeader line
  hostValue_before : ∀ line ∈ before, hostValue lib line = none
  isHeader_hostLine : IsHeader hostLine
  hostValue_hostLine : hostValue lib hostLine = some value
  isHeader_after : ∀ line ∈ after, IsHeader line
  blank_eq : blank = [] ∨ blank = [cr]

/-- The host that a result has, if it has one. -/
def found : Except SniffError Bytes → Option Bytes
  | .error _ => none
  | .ok host => if host = [] then none else some host

/-- The host of the value of a Host header. -/
def parsedHost (lib : Library) (value : Bytes) : Option Bytes := found (hostText lib value)

/-- The host that is sniffed. -/
def sniffedHost (lib : Library) (b : Bytes) : Option Bytes := found ((sniffHTTP lib b).map (·.host))

namespace Request

variable {lib : Library} (r : Request lib)

/-- The lines up to the first Host header. -/
def upToHost : Bytes := unlines lf (r.requestLine :: r.before) ++ r.hostLine

def bytes : Bytes := r.upToHost ++ lf :: (unlines lf (r.after ++ [r.blank]) ++ r.body)

/-- The host is that of the first Host header, and never another one before its end. -/
def Sniffed : Prop :=
  sniffedHost lib r.bytes = parsedHost lib r.value ∧
    ∀ p, p <+: r.upToHost → sniffedHost lib p = none ∨ sniffedHost lib p = parsedHost lib r.value

/-- The values of the other Host headers that the scanner reads: those behind the first one, and
    those in the body unless the blank line is empty. -/
def later : List Bytes :=
  r.after.filterMap (hostValue lib) ++
    if r.blank = [] then [] else hostValues lib (r.body.splitOn lf)

/-- The other Host headers leave the host of the first one: the last one has it too, or one is not
    read and there is no host to be found. -/
def LaterAgree : Prop :=
  ∀ host, hostText lib r.value = .ok host →
    ((∀ v ∈ r.later, (hostText lib v).isOk) ∧ ∀ v ∈ r.later.getLast?, hostText lib v = .ok host) ∨
      (∃ v ∈ r.later, (hostText lib v).isOk = false) ∧ host = []

/-- No part of the value has another host. -/
def Steady (lib : Library) (value : Bytes) : Prop :=
  ∀ t, t <+: value → parsedHost lib t = none ∨ parsedHost lib t = parsedHost lib value

/-- The scanner knows the method, and neither other Host headers nor a part of the value mislead
    it; or it does not, and there is no host to be found. -/
def Undisturbed : Prop :=
  HasMethod r.requestLine ∧ r.LaterAgree ∧ Steady lib r.value ∨
    ¬ HasMethod r.requestLine ∧ parsedHost lib r.value = none

end Request

/-! ## What is sniffed -/

variable {lib : Library}

theorem sniffedHost_of_error {b : Bytes} {e : SniffError} (h : beginWithHTTPMethod b = .error e) :
    sniffedHost lib b = none := by
  rw [sniffedHost, sniffHTTP, h]
  rfl

/-- What is sniffed is what is found in the Host headers. -/
theorem sniffedHost_of_ok {b : Bytes} (h : beginWithHTTPMethod b = .ok ()) :
    sniffedHost lib b = found (readHosts lib (hostValues lib (b.splitOn lf).tail) []) := by
  rw [sniffedHost, sniffHTTP, h]
  simp only [scanHeaders_eq]
  cases readHosts lib (hostValues lib (b.splitOn lf).tail) [] with
  | error e => rfl
  | ok host =>
    by_cases hhost : host = []
    · simp [hhost, found, Except.map]
    · simp [hhost, found, Except.map]

theorem isOk_iff {ε α : Type*} {x : Except ε α} : x.isOk = true ↔ ∃ a, x = .ok a := by
  cases x <;> simp [Except.isOk, Except.toBool]

theorem isOk_eq_false_iff {ε α : Type*} {x : Except ε α} : x.isOk = false ↔ ∃ e, x = .error e := by
  cases x <;> simp [Except.isOk, Except.toBool]

theorem found_ok_inj {host host' : Bytes} :
    found (.ok host) = found (.ok host') ↔ host = host' := by
  by_cases h : host = []
  · by_cases h' : host' = [] <;> simp [found, h, h', eq_comm]
  · by_cases h' : host' = [] <;> simp [found, h, h']

/-- One Host header is found as it is. -/
theorem found_singleton (value host : Bytes) :
    found (readHosts lib [value] host) = parsedHost lib value := by
  rw [readHosts, parsedHost]
  cases hostText lib value with
  | error e => rfl
  | ok text => rfl

theorem hostValues_append {headers : List Bytes} (h : ∀ header ∈ headers, header ≠ [])
    (rest : List Bytes) :
    hostValues lib (headers ++ rest) =
      headers.filterMap (hostValue lib) ++ hostValues lib rest := by
  rw [hostValues, List.takeWhile_append_of_pos (by simpa using h), List.filterMap_append,
    hostValues]

/-- A part of a Host header has a part of its value, or none. -/
theorem hostValue_prefix {t line v : Bytes} (h : t <+: line) (ht : hostValue lib t = some v) :
    ∃ w, hostValue lib line = some w ∧ v <+: w := by
  rw [hostValue] at ht
  split at ht
  · cases ht
  · next key value hcut =>
    obtain ⟨w, hw, hp⟩ := cut_prefix h hcut
    split at ht
    · next hkey => cases ht; exact ⟨w, by rw [hostValue, hw]; exact if_pos hkey, hp⟩
    · cases ht

/-- The key of a Host header. -/
theorem exists_key {line v : Bytes} (h : hostValue lib line = some v) :
    ∃ key, line = key ++ colon :: v ∧ colon ∉ key ∧ lib.toLower key = ascii "host" := by
  rw [hostValue] at h
  split at h
  · cases h
  · next key value hcut =>
    split at h
    · next hkey => cases h; exact ⟨key, (eq_of_cut hcut).1, (eq_of_cut hcut).2, hkey⟩
    · cases h

theorem hostValue_append {key : Bytes} (hkey : colon ∉ key) (h : lib.toLower key = ascii "host")
    (v : Bytes) : hostValue lib (key ++ colon :: v) = some v := by
  rw [hostValue, cut_append hkey]
  exact if_pos h

/-- The lines of a part of a list, and the line behind them. -/
theorem mem_before_of_append {α : Type*} {before lines rest : List α} {line last : α}
    (h : before ++ [last] = lines ++ line :: rest) :
    (∀ l ∈ lines, l ∈ before) ∧ (line ∈ before ∨ line = last) := by
  have hline : line ∈ before ++ [last] := h ▸ List.mem_append_right lines List.mem_cons_self
  refine ⟨?_, by simpa using hline⟩
  rcases List.append_eq_append_iff.1 h with ⟨u, rfl, hu⟩ | ⟨u, rfl, -⟩
  · cases u with
    | nil => simp
    | cons l u => simp at hu
  · exact fun l hl => List.mem_append_left u hl

namespace Request

variable (r : Request lib)

theorem bytes_eq : ∃ rest, r.bytes = r.requestLine ++ lf :: rest := by
  rw [bytes, upToHost, unlines_cons, List.append_assoc, List.append_assoc]
  exact ⟨_, rfl⟩

theorem upToHost_prefix : r.upToHost <+: r.bytes := List.prefix_append _ _

theorem ne_nil_of_mem_before {line : Bytes} (h : line ∈ r.before) : line ≠ [] :=
  (r.isHeader_before line h).2.1

/-- Lines without a Host header. -/
theorem filterMap_before {lines : List Bytes} (h : ∀ line ∈ lines, line ∈ r.before) :
    lines.filterMap (hostValue lib) = [] :=
  List.filterMap_eq_nil_iff.2 fun line hline => r.hostValue_before line (h line hline)

theorem lf_notMem_lines : ∀ line ∈ r.requestLine :: r.before, lf ∉ line :=
  List.forall_mem_cons.2 ⟨r.lf_notMem_requestLine, fun line h => (r.isHeader_before line h).1⟩

theorem splitOn_bytes : r.bytes.splitOn lf =
    r.requestLine :: (r.before ++ r.hostLine :: (r.after ++ r.blank :: r.body.splitOn lf)) := by
  have hblank : lf ∉ r.blank := by
    rcases r.blank_eq with h | h
    · rw [h]; decide
    · rw [h]; decide
  have hafter : ∀ line ∈ r.after ++ [r.blank], lf ∉ line := by
    intro line hline
    rcases List.mem_append.1 hline with hline | hline
    · exact (r.isHeader_after line hline).1
    · rwa [List.mem_singleton.1 hline]
  rw [bytes, upToHost, List.append_assoc, splitOn_unlines r.lf_notMem_lines,
    List.splitOn_append_cons_self_of_not_mem r.isHeader_hostLine.1, splitOn_unlines hafter,
    List.append_assoc]
  rfl

/-- The scanner reads the first Host header and the later ones. -/
theorem hostValues_bytes : hostValues lib (r.bytes.splitOn lf).tail = r.value :: r.later := by
  rw [splitOn_bytes, List.tail_cons, hostValues_append fun _ => r.ne_nil_of_mem_before,
    r.filterMap_before fun _ => id, List.nil_append,
    hostValues_cons_some r.isHeader_hostLine.2.1 r.hostValue_hostLine,
    hostValues_append fun line h => (r.isHeader_after line h).2.1, later]
  split
  · next hblank => rw [hblank, hostValues_nil_cons]
  · next hblank =>
    rw [r.blank_eq.resolve_left hblank, hostValues_cons_none (List.cons_ne_nil _ _) rfl]

/-! ## The whole request -/

theorem found_later_iff :
    found (readHosts lib (r.value :: r.later) []) = parsedHost lib r.value ↔ r.LaterAgree := by
  rw [readHosts, parsedHost, LaterAgree]
  cases hostText lib r.value with
  | error e => exact iff_of_true rfl (by rintro host ⟨⟩)
  | ok host =>
    simp only [Except.ok.injEq, forall_eq']
    by_cases hok : ∀ v ∈ r.later, (hostText lib v).isOk
    · rw [readHosts_ok hok]
      have herror : ¬ ∃ v ∈ r.later, (hostText lib v).isOk = false := by
        rintro ⟨v, hv, hf⟩
        rw [hok v hv] at hf
        cases hf
      cases hlast : r.later.getLast? with
      | none => exact iff_of_true rfl (Or.inl ⟨hok, by rintro v ⟨⟩⟩)
      | some v =>
        obtain ⟨text, heq⟩ := isOk_iff.1 (hok v (List.mem_of_getLast? hlast))
        simp only [Option.map_some, Option.getD_some, heq, found_ok_inj, Option.mem_some_iff,
          forall_eq', herror, false_and, or_false, Except.ok.injEq]
        exact (and_iff_right hok).symm
    · have herror : ∃ v ∈ r.later, (hostText lib v).isOk = false := by simpa using hok
      obtain ⟨e, he⟩ := isOk_eq_false_iff.1 (readHosts_error herror host)
      simp [he, hok, herror, found]

/-- The scanner finds the first Host header's host if the other ones agree with it. -/
theorem sniffedHost_bytes_iff (h : HasMethod r.requestLine) :
    sniffedHost lib r.bytes = parsedHost lib r.value ↔ r.LaterAgree := by
  obtain ⟨rest, hrest⟩ := r.bytes_eq
  rw [sniffedHost_of_ok (hrest ▸ begins_of_hasMethod h rest), r.hostValues_bytes, found_later_iff]

/-! ## A part of the request -/

/-- A part of the lines up to the first Host header has no host but that of a part of its value. -/
theorem sniffedHost_prefix {p : Bytes} (h : p <+: r.upToHost) :
    sniffedHost lib p = none ∨ ∃ t, t <+: r.value ∧ sniffedHost lib p = parsedHost lib t := by
  cases hbegin : beginWithHTTPMethod p with
  | error e => exact Or.inl (sniffedHost_of_error hbegin)
  | ok _ =>
    obtain ⟨lines, line, rest, t, heq, ht, hsplit⟩ :=
      splitOn_prefix r.lf_notMem_lines r.isHeader_hostLine.1 h
    rw [sniffedHost_of_ok hbegin, hsplit]
    cases lines with
    | nil => exact Or.inl rfl
    | cons first lines =>
      obtain ⟨hlines, hline⟩ := mem_before_of_append (List.cons_eq_cons.1 heq).2
      rw [List.cons_append, List.tail_cons,
        hostValues_append fun _ h => r.ne_nil_of_mem_before (hlines _ h), r.filterMap_before hlines, List.nil_append]
      by_cases hnil : t = []
      · rw [hnil]
        exact Or.inl rfl
      cases hvalue : hostValue lib t with
      | none =>
        rw [hostValues_cons_none hnil hvalue]
        exact Or.inl rfl
      | some v =>
        -- The part of the line is one of the first Host header: no line before it has a value.
        obtain ⟨w, hw, hv⟩ := hostValue_prefix ht hvalue
        refine Or.inr ⟨v, ?_, ?_⟩
        · rcases hline with hline | rfl
          · exact nomatch (r.hostValue_before line hline).symm.trans hw
          · rwa [Option.some.inj (r.hostValue_hostLine.symm.trans hw)]
        · rw [hostValues_cons_some hnil hvalue]
          exact found_singleton v []

/-- The request as far as a part of the value of its first Host header. -/
theorem exists_prefix {t : Bytes} (h : HasMethod r.requestLine) (ht : t <+: r.value) :
    ∃ p, p <+: r.upToHost ∧ sniffedHost lib p = parsedHost lib t := by
  obtain ⟨key, hline, hkey, hhost⟩ := exists_key r.hostValue_hostLine
  have hlf : lf ∉ key ++ colon :: t := by
    intro hmem
    refine r.isHeader_hostLine.1 (hline ▸ ?_)
    exact ((List.prefix_append_right_inj key).2 (List.cons_prefix_cons.2 ⟨rfl, ht⟩)).mem hmem
  refine ⟨unlines lf (r.requestLine :: r.before) ++ (key ++ colon :: t), ?_, ?_⟩
  · rw [upToHost, hline]
    exact (List.prefix_append_right_inj _).2
      ((List.prefix_append_right_inj key).2 (List.cons_prefix_cons.2 ⟨rfl, ht⟩))
  · have hbegin : beginWithHTTPMethod
        (unlines lf (r.requestLine :: r.before) ++ (key ++ colon :: t)) = .ok () := by
      rw [unlines_cons, List.append_assoc, List.cons_append]
      exact begins_of_hasMethod h _
    rw [sniffedHost_of_ok hbegin, splitOn_unlines r.lf_notMem_lines, List.splitOn_eq_singleton hlf,
      List.cons_append, List.tail_cons, hostValues_append fun _ => r.ne_nil_of_mem_before,
      r.filterMap_before fun _ => id, List.nil_append,
      hostValues_cons_some (by simp) (hostValue_append hkey hhost t)]
    exact found_singleton t []

/-! ## Names that are cut off -/

end Request

/-- A letter or a digit, not in upper case. -/
def isNameChar (c : UInt8) : Bool := isAlphaNum c && !(0x41 ≤ c && c ≤ 0x5a)

/-- No white space begins or ends with a character of a name. -/
theorem head_spaces : ∀ s ∈ spaces ++ spaces.map List.reverse, ∃ c, s.head? = some c ∧
    isNameChar c = false := by decide

theorem trimSpace_name {t : Bytes} (ht : ∀ c ∈ t, isNameChar c = true) : trimSpace t = t :=
  trimSpace_of_forall head_spaces ht

theorem lt_of_isNameChar {c : UInt8} (h : isNameChar c = true) : c < 0x80 := by
  simp only [isNameChar, isAlphaNum, Bool.and_eq_true, Bool.or_eq_true, decide_eq_true_eq,
    UInt8.le_iff_toNat_le, UInt8.reduceToNat] at h
  simp only [UInt8.lt_iff_toNat_lt, UInt8.reduceToNat]
  omega

theorem not_upper_of_isNameChar {c : UInt8} (h : isNameChar c = true) :
    ¬ (0x41 ≤ c ∧ c ≤ 0x5a) := by
  rw [isNameChar, Bool.and_eq_true] at h
  simpa only [Bool.not_eq_true', Bool.and_eq_false_iff, decide_eq_false_iff_not, not_and_or]
    using h.2

theorem toLower_name {t : Bytes} (ht : ∀ c ∈ t, isNameChar c = true) : lib.toLower t = t := by
  have hascii : t.all (· < 0x80) = true :=
    List.all_eq_true.2 fun c hc => decide_eq_true (lt_of_isNameChar (ht c hc))
  rw [Library.toLower, if_pos hascii, lowerASCII]
  exact (List.map_congr_left fun c hc => if_neg (not_upper_of_isNameChar (ht c hc))).trans
    (List.map_id t)

theorem splitHostPort_name {t : Bytes} (ht : ∀ c ∈ t, isNameChar c = true) :
    splitHostPort t = .error ⟨missingPort, t⟩ := by
  have hcolon : 0x3a ∉ t := fun hmem => nomatch ht _ hmem
  have hlast : lastIndexByte t 0x3a = none := by
    rw [lastIndexByte, List.idxOf?_eq_none_iff.2 (by simpa using hcolon), Option.map_none]
  rw [splitHostPort, hlast]

theorem parseAddress_name {t : Bytes} (hne : t ≠ []) (ht : ∀ c ∈ t, isNameChar c = true)
    (hip : lib.parseIP t = none) : parseAddress lib.parseIP t = .domain t := by
  have hbracket : t.head hne ≠ 0x5b := by
    intro h
    have hname := ht _ (List.head_mem hne)
    rw [h] at hname
    exact nomatch hname
  have halpha : ∀ c ∈ t, isAlphaNum c = true := fun c hc => (Bool.and_eq_true_iff.1 (ht c hc)).1
  have hhead := halpha _ (List.head_mem hne)
  have hlast := halpha _ (List.getLast_mem hne)
  simp [parseAddress, hbracket, hip, List.headD_eq_head?_getD, List.head?_eq_some_head hne,
    List.getLastD_eq_getLast?, List.getLast?_eq_some_getLast hne, hhead, hlast]

/-- A part of a name is taken for a host. -/
theorem parsedHost_name {t : Bytes} (hne : t ≠ []) (ht : ∀ c ∈ t, isNameChar c = true)
    (hip : lib.parseIP t = none) : parsedHost lib t = some t := by
  have hmissing : ascii "missing port" <:+: missingPort := by decide +kernel
  rw [parsedHost, hostText, trimSpace_name ht, toLower_name ht, parseHost, splitHostPort_name ht]
  simp only [if_pos hmissing, parseAddress_name hne ht hip]
  exact if_neg hne

namespace Request

/-! ## The host of a request -/

/-- The host sniffed is that of the first Host header, and no other one before its end, just if
    the scanner knows the method and is misled neither by other Host headers nor by a part of the
    value, or does not know it and there is no host. -/
theorem sniffed_iff (r : Request lib) : r.Sniffed ↔ r.Undisturbed := by
  by_cases h : HasMethod r.requestLine
  · rw [Sniffed, Undisturbed, r.sniffedHost_bytes_iff h, and_iff_right h,
      or_iff_left fun hn => hn.1 h]
    refine and_congr_right fun _ => ⟨fun hp t ht => ?_, fun hs p hp => ?_⟩
    · obtain ⟨p, hpre, heq⟩ := r.exists_prefix h ht
      exact heq ▸ hp p hpre
    · rcases r.sniffedHost_prefix hp with hnone | ⟨t, ht, heq⟩
      · exact Or.inl hnone
      · exact heq ▸ hs t ht
  · obtain ⟨rest, hrest⟩ := r.bytes_eq
    have hnone : ∀ p, p <+: r.bytes → sniffedHost lib p = none := by
      intro p hp
      cases hbegin : beginWithHTTPMethod p with
      | error e => exact sniffedHost_of_error hbegin
      | ok _ => exact absurd (hasMethod_of_begins (hrest ▸ hp) hbegin) h
    rw [Sniffed, Undisturbed, or_iff_right fun hn => h hn.1, and_iff_right h,
      hnone _ (List.prefix_refl _), eq_comm]
    exact and_iff_left fun p hp => Or.inl (hnone p (hp.trans r.upToHost_prefix))

/-- A name of two characters or more is taken for another one when it is cut off. -/
theorem not_sniffed_of_name (r : Request lib) {c d : UInt8} {rest : Bytes}
    (hmethod : HasMethod r.requestLine) (hvalue : r.value = 0x20 :: c :: d :: rest)
    (hc : isNameChar c = true) (hd : isNameChar d = true) (hip : lib.parseIP [c] = none)
    (hip' : lib.parseIP [c, d] = none) : ¬ r.Sniffed := by
  rintro ⟨-, hcut⟩
  obtain ⟨p, hp, heq⟩ := r.exists_prefix (t := [0x20, c]) hmethod ⟨d :: rest, hvalue.symm⟩
  obtain ⟨p', hp', heq'⟩ := r.exists_prefix (t := [0x20, c, d]) hmethod ⟨rest, hvalue.symm⟩
  have hone : parsedHost lib [0x20, c] = some [c] :=
    parsedHost_name (List.cons_ne_nil _ _) (by simpa using hc) hip
  have htwo : parsedHost lib [0x20, c, d] = some [c, d] :=
    parsedHost_name (List.cons_ne_nil _ _) (by simpa using ⟨hc, hd⟩) hip'
  rw [hone] at heq
  rw [htwo] at heq'
  have h := (hcut p hp).resolve_left (heq ▸ Option.some_ne_none _)
  have h' := (hcut p' hp').resolve_left (heq' ▸ Option.some_ne_none _)
  exact nomatch heq.symm.trans (h.trans (h'.symm.trans heq'))

end Request

/-- No host is an IP address. -/
def namesOnly : Library := ⟨fun _ => none, id, id⟩

/-- A request whose lines end in CR LF, and a line in its body that looks like a Host header. -/
def hostInBody : Request namesOnly where
  requestLine := ascii "GET / HTTP/1.1\r"
  before := []
  hostLine := ascii "Host: a.com\r"
  value := ascii " a.com\r"
  after := []
  blank := [cr]
  body := ascii "host: b.com"
  lf_notMem_requestLine := by decide +kernel
  isHeader_before := nofun
  hostValue_before := nofun
  isHeader_hostLine := by decide +kernel
  hostValue_hostLine := by decide +kernel
  isHeader_after := nofun
  blank_eq := Or.inr rfl

/-- The line in the body is taken for the Host header. -/
theorem body_sniffed : sniffedHost namesOnly hostInBody.bytes = some (ascii "b.com") ∧
    parsedHost namesOnly hostInBody.value = some (ascii "a.com") ∧ ¬ hostInBody.Sniffed := by
  have hbody : sniffedHost namesOnly hostInBody.bytes = some (ascii "b.com") := by decide +kernel
  have hvalue : parsedHost namesOnly hostInBody.value = some (ascii "a.com") := by decide +kernel
  refine ⟨hbody, hvalue, fun h => ?_⟩
  have heq := h.1
  rw [hbody, hvalue] at heq
  revert heq
  decide +kernel

end Gzv2ray.Http
