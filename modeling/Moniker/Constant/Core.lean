import Moniker.Constant

/-! # The core constants

The identifiers that generated code refers to, with the hash codes baked into it. They are what
is checked when no manifest is given, and their keywords can be installed in advance. -/

namespace Moniker.Constant

def core : List Constant :=
  [ ⟨.symbol, none, "form", 16469056⟩,
    ⟨.symbol, none, "tag", 350170304⟩,
    ⟨.symbol, none, "&", -2144855648⟩,
    ⟨.symbol, none, "uuid", -504564192⟩,
    ⟨.symbol, none, "case*", -1938255072⟩,
    ⟨.symbol, none, "end", 1372345569⟩,
    ⟨.symbol, none, "defrecord*", -1936366207⟩,
    ⟨.symbol, none, "base", 1825810849⟩,
    ⟨.symbol, none, "obj", -1672671807⟩,
    ⟨.symbol, none, "fqn", -1749334463⟩,
    ⟨.symbol, none, "first", 996428481⟩,
    ⟨.symbol, none, "try", -1273693247⟩,
    ⟨.symbol, none, "has-nil?", 825886722⟩,
    ⟨.symbol, none, "rear", -900164830⟩,
    ⟨.symbol, none, "hierarchy", 587061186⟩,
    ⟨.symbol, none, "iter", -1346195486⟩,
    ⟨.symbol, none, "step", -1365547645⟩,
    ⟨.symbol, none, "boolean", -278886877⟩,
    ⟨.symbol, none, "update-count", -411982269⟩,
    ⟨.symbol, none, "method-table", -1878263165⟩,
    ⟨.keyword, none, "ready", 1086465795⟩,
    ⟨.symbol, none, "chunk", 449371907⟩,
    ⟨.symbol, none, "i", 253690212⟩,
    ⟨.symbol, none, "rest", 398835108⟩,
    ⟨.keyword, none, "meta", 1499536964⟩,
    ⟨.keyword, none, "dup", 556298533⟩,
    ⟨.symbol, none, "comp", -1462482139⟩,
    ⟨.symbol, none, "dispatch-fn", -1401088155⟩,
    ⟨.symbol, none, "buffer", -2037140571⟩,
    ⟨.keyword, none, "else", -1508377146⟩,
    ⟨.symbol, none, "left", 1241415590⟩,
    ⟨.symbol, none, "ns*", 1840949383⟩,
    ⟨.keyword, some "cljs.core", "none", 926646439⟩,
    ⟨.symbol, none, "shift", -1657295705⟩,
    ⟨.symbol, none, "iters", 719353031⟩,
    ⟨.symbol, none, "xform", -85179481⟩,
    ⟨.keyword, none, "validator", -1966190681⟩,
    ⟨.symbol, none, "finally", -1065347064⟩,
    ⟨.keyword, none, "default", -1987822328⟩,
    ⟨.symbol, none, "prefer-table", 462168584⟩,
    ⟨.symbol, none, "loop*", 615029416⟩,
    ⟨.symbol, none, "watches", 1367433992⟩,
    ⟨.keyword, none, "ns", 441598760⟩,
    ⟨.keyword, none, "pending", -220036727⟩,
    ⟨.symbol, none, "bitmap", 501334601⟩,
    ⟨.symbol, none, "_seq", -449557847⟩,
    ⟨.symbol, none, "nil-val", -513933559⟩,
    ⟨.keyword, none, "value", 305978217⟩,
    ⟨.symbol, none, "v", 1661996586⟩,
    ⟨.symbol, none, "riter", -237834262⟩,
    ⟨.symbol, none, "__hash", -1328796629⟩,
    ⟨.symbol, none, "meta", -1154898805⟩,
    ⟨.symbol, none, "_meta", -1716892533⟩,
    ⟨.keyword, none, "to.have.length", -1972832085⟩,
    ⟨.symbol, none, "afn", 216963467⟩,
    ⟨.symbol, none, "tree", 1444219499⟩,
    ⟨.symbol, none, "fn", 465265323⟩,
    ⟨.symbol, none, "front", 117022539⟩,
    ⟨.symbol, none, "buf", 1426618187⟩,
    ⟨.symbol, none, "next-entry", 1091342476⟩,
    ⟨.keyword, none, "val", 128701612⟩,
    ⟨.symbol, none, "key", 124488940⟩,
    ⟨.symbol, none, "_next", 101877036⟩,
    ⟨.keyword, none, "to.contain", -2129859892⟩,
    ⟨.symbol, none, "root-iter", 1974672108⟩,
    ⟨.symbol, none, "do", 1686842252⟩,
    ⟨.symbol, none, "vec", 982683596⟩,
    ⟨.keyword, none, "fallback-impl", -1501286995⟩,
    ⟨.keyword, none, "negation", -755634643⟩,
    ⟨.keyword, none, "keyword-fn", -64566675⟩,
    ⟨.keyword, none, "flush-on-newline", -151457939⟩,
    ⟨.symbol, none, "default-dispatch-val", -1231201266⟩,
    ⟨.keyword, none, "no-test", -1679482642⟩,
    ⟨.symbol, none, "validator", -325659154⟩,
    ⟨.symbol, none, "letfn*", -110097810⟩,
    ⟨.symbol, none, "if", 1181717262⟩,
    ⟨.keyword, none, "empty", 767870958⟩,
    ⟨.symbol, none, "arr", 2115492975⟩,
    ⟨.symbol, none, "new", -444906321⟩,
    ⟨.keyword, none, "descendants", 1824886031⟩,
    ⟨.symbol, none, "ns", 2082130287⟩,
    ⟨.symbol, none, "completed", 1154475024⟩,
    ⟨.keyword, none, "ancestors", -776045424⟩,
    ⟨.symbol, none, "value", 1946509744⟩,
    ⟨.symbol, none, "name", -810760592⟩,
    ⟨.keyword, none, "readably", 1129599760⟩,
    ⟨.keyword, none, "more-marker", -14717935⟩,
    ⟨.symbol, none, "fields", -291534703⟩,
    ⟨.symbol, none, "meta3875", 1452884209⟩,
    ⟨.symbol, none, "method-cache", 1230193905⟩,
    ⟨.symbol, none, "edit", -1302639⟩,
    ⟨.symbol, none, "editable?", -164945806⟩,
    ⟨.symbol, none, "base-count", -1180647182⟩,
    ⟨.symbol, none, "collision-hash", -35831342⟩,
    ⟨.keyword, none, "keys", 1068423698⟩,
    ⟨.symbol, none, "deftype*", 962659890⟩,
    ⟨.symbol, none, "let*", 1920721458⟩,
    ⟨.symbol, none, "start", 1285322546⟩,
    ⟨.symbol, none, "sourceIter", 1068220306⟩,
    ⟨.symbol, none, "coll", -1006698606⟩,
    ⟨.symbol, none, "not-native", -236392494⟩,
    ⟨.symbol, none, "js*", -1134233646⟩,
    ⟨.symbol, none, "strobj", 1088091283⟩,
    ⟨.symbol, none, "_rest", -2100466189⟩,
    ⟨.symbol, none, "fn*", -752876845⟩,
    ⟨.symbol, none, "val", 1769233139⟩,
    ⟨.symbol, none, "ascending?", -1938452653⟩,
    ⟨.symbol, none, "recur", 1202958259⟩,
    ⟨.symbol, none, "xf", 2042434515⟩,
    ⟨.symbol, none, "ci", 2049808339⟩,
    ⟨.keyword, none, "status", -1997798413⟩,
    ⟨.keyword, none, "print-length", 1931866356⟩,
    ⟨.symbol, none, "state", -348086572⟩,
    ⟨.keyword, none, "ok", 967785236⟩,
    ⟨.symbol, none, "vals", -1886377036⟩,
    ⟨.symbol, none, "all", -1762306027⟩,
    ⟨.keyword, some "cljs.core", "halt", -1049036715⟩,
    ⟨.symbol, none, "cached-hierarchy", -1085460203⟩,
    ⟨.symbol, none, "s", -948495851⟩,
    ⟨.keyword, none, "parents", -2027538891⟩,
    ⟨.symbol, none, "cnt", 1924510325⟩,
    ⟨.symbol, none, "meta1824", -72681867⟩,
    ⟨.keyword, none, "expected", 1583670997⟩,
    ⟨.symbol, none, "node", -2073234571⟩,
    ⟨.symbol, none, "sym", 195671222⟩,
    ⟨.symbol, none, "sb", -1249746442⟩,
    ⟨.symbol, none, "seed", 1709144854⟩,
    ⟨.symbol, none, "prev-seed", 2126381367⟩,
    ⟨.symbol, none, "_hash", -2130838312⟩,
    ⟨.symbol, none, "keys", -1586012071⟩,
    ⟨.symbol, none, "set!", 250714521⟩,
    ⟨.keyword, none, "tag", -1290361223⟩,
    ⟨.symbol, none, "tree-map", 1373073049⟩,
    ⟨.symbol, none, ".", 1975675962⟩,
    ⟨.keyword, none, "equal", -1921681350⟩,
    ⟨.symbol, none, "var", 870848730⟩,
    ⟨.keyword, none, "mutable", 875778266⟩,
    ⟨.symbol, none, "quote", 1377916282⟩,
    ⟨.keyword, none, "members", 159001018⟩,
    ⟨.symbol, none, "root", 1191874074⟩,
    ⟨.symbol, none, "multi", 1450238522⟩,
    ⟨.symbol, none, "str", -1564826950⟩,
    ⟨.symbol, none, "next", 1522830042⟩,
    ⟨.symbol, none, "nodes", -459054278⟩,
    ⟨.symbol, none, "seen", 1121531738⟩,
    ⟨.symbol, none, "hash-map", -439030950⟩,
    ⟨.symbol, none, "catch", -1616370245⟩,
    ⟨.keyword, none, "alt-impl", 670969595⟩,
    ⟨.symbol, none, "ext-map-iter", -1215982757⟩,
    ⟨.symbol, none, "tail", 494507963⟩,
    ⟨.symbol, none, "record", 861424668⟩,
    ⟨.symbol, none, "mseq", 1602647196⟩,
    ⟨.symbol, none, "count", -514511684⟩,
    ⟨.keyword, none, "keywordize-keys", 1310784252⟩,
    ⟨.symbol, none, "current", 552492924⟩,
    ⟨.symbol, none, "off", -2047994980⟩,
    ⟨.symbol, none, "stack", 847125597⟩,
    ⟨.symbol, none, "transient-map", 351764893⟩,
    ⟨.keyword, none, "guard", -873147811⟩,
    ⟨.symbol, none, "prev", 43462301⟩,
    ⟨.symbol, none, "len", -1230778691⟩,
    ⟨.symbol, none, "right", 1187949694⟩,
    ⟨.symbol, none, "throw", 595905694⟩,
    ⟨.symbol, none, "fseq", -1466412450⟩,
    ⟨.symbol, none, "chunk-next", -547810434⟩,
    ⟨.keyword, none, "message", -406056002⟩,
    ⟨.keyword, none, "assertion", -1645134882⟩,
    ⟨.keyword, some "cljs.core", "not-found", -1572889185⟩,
    ⟨.symbol, none, "more", -418290273⟩,
    ⟨.symbol, none, "def", 597100991⟩,
    ⟨.symbol, none, "f", 43394975⟩,
    ⟨.symbol, none, "next-iter", 1526626239⟩]

def coreOf (k : Kind) : List Constant :=
  core.filter (·.kind == k)

end Moniker.Constant
