import CodeTemplate.Text.CodeRun
import CodeTemplate.Text.Collation.Form

/-! Characters that count as several others, or as another in a different form. A run of them with
its members is written `characters=member,member`; a member that moves along with the run is written
`first>distance`, or `first<distance` when it moves down. -/

namespace CodeTemplate.Text.Collation

structure Composite where
  characters : CodeRun
  /-- The members of the first character, each with its distance to that of the next one. -/
  members : List (Nat × Int)

namespace Composite

def memberOfText (s : String) : Nat × Int :=
  match split '>' s, split '<' s with
  | [first, distance], _ => (hexadecimal first, hexadecimal distance)
  | _, [first, distance] => (hexadecimal first, -hexadecimal distance)
  | _, _ => (hexadecimal s, 0)

def ofText (s : String) : Composite :=
  match split '=' s with
  | [characters, members] =>
    { characters := CodeRun.ofText characters, members := (split ',' members).map memberOfText }
  | _ => { characters := CodeRun.ofText s, members := [] }

def listOfText (s : String) : List Composite := (words s).map ofText

/-- The characters from `first` on that count as the ideographs in `s`, but for those that are
themselves in it. -/
def ideographs (first : Nat) (s : String) : List Composite :=
  ((s.toList.zipIdx first).filter fun (m, c) => m.toNat ≠ c).map fun (m, c) =>
    { characters := { first := c, count := 1, step := 1 }, members := [(m.toNat, 0)] }

/-- What a character counts as. -/
def members? (k : Composite) (c : Nat) : Option (List Nat) :=
  (k.characters.index? c).map fun i =>
    k.members.map fun (m, distance) => ((m : Int) + distance * i).toNat

end Composite

/-- The characters that stand for their members as these are: letters with marks on them, and
ideographs that were encoded twice. -/
def composed : List Composite :=
  Composite.listOfText "
  c0+4=41,300>1 c4+2=41,308>2 c7=43,327 c8+3=45,300>1 cb+2*4=45>4,308 cc+3=49,300>1
  d1+2*3=4e>1,303<1 d2+2=4f,300>1 d5=4f,303 d6=4f,308 d8=4f,338 d9+3=55,300>1 dc=55,308 dd=59,301
  e0+4=61,300>1 e4+2=61,308>2 e7=63,327 e8+3=65,300>1 eb+2*4=65>4,308 ec+3=69,300>1
  f1+2*3=6e>1,303<1 f2+2=6f,300>1 f5=6f,303 f6=6f,308 f8=6f,338 f9+3=75,300>1 fc=75,308 fd=79,301
  ff=79,308 100+2*2=41,304>2 101+2*2=61,304>2 104=41,328 105=61,328 106+2*2=43,301>1
  107+2*2=63,301>1 10a=43,307 10b=63,307 10c+2*2=43>1,30c 10d+2*2=63>1,30c 110=44,335 111=64,335
  112+2*2=45,304>2 113+2*2=65,304>2 116+2*8=45>2,307<1 117+2*8=65>2,307<1 118=45,328 119=65,328
  11a=45,30c 11b=65,30c 11c+2*8=47>1,302 11d+2*8=67>1,302 120=47,307 121=67,307 122=47,327
  123=67,327 126=48,335 127=68,335 128+2*2=49,303>1 129+2*2=69,303>1 12c+2*4=49,306>1 12d=69,306
  12e+2*8=49>2,328<1 12f+2*8=69>2,328<1 134=4a,302 135=6a,302 139=4c,301 13a=6c,301 13b=4c,327
  13c=6c,327 13d=4c,30c 13e=6c,30c 13f=4c,110000 140=6c,110000 141=4c,335 142=6c,335 143=4e,301
  144=6e,301 145=4e,327 146=6e,327 147=4e,30c 148=6e,30c 14c+2*2=4f,304>2 14d+2*2=6f,304>2
  150=4f,30b 151=6f,30b 154+2*8=52>1,301>1 155+2*8=72>1,301>1 156+2*8=52>1,327 157+2*8=72>1,327
  158+2*8=52>1,30c 159+2*8=72>1,30c 15a=53,301 15b=73,301 162=54,327 163=74,327 164=54,30c
  165=74,30c 168+2*2=55,303>1 169+2*2=75,303>1 16c=55,306 16d=75,306 16e+2*2=55,30a>1
  16f+2*2=75,30a>1 172=55,328 173=75,328 174+2*2=57>2,302 175+2*2=77>2,302 178+2*3=59>1,308<1
  179=5a,301 17a=7a,301 17c=7a,307 17d=5a,30c 17e=7a,30c 1a0=4f,31b 1a1=6f,31b 1af=55,31b
  1b0=75,31b 1cd=41,30c 1ce=61,30c 1cf=49,30c 1d0=69,30c 1d1=4f,30c 1d2=6f,30c 1d3=55,30c
  1d4=75,30c 1d5=dc,304 1d6=fc,304 1d7+2*4=dc,301<1 1d8+2*4=fc,301<1 1d9=dc,30c 1da=fc,30c
  1de+2*4=c4>2,304 1df+2*4=e4>2,304 1e0+2=226>1,304 1e6=47,30c 1e7=67,30c 1e8=4b,30c 1e9=6b,30c
  1ea=4f,328 1eb=6f,328 1ec+2=1ea>1,304 1ee=1b7,30c 1ef=292,30c 1f0=6a,30c 1f4=47,301 1f5=67,301
  1f8=4e,300 1f9=6e,300 1fa+2*2=c5>1,301 1fb+2*2=e5>1,301 1fe=4f,338,301 1ff=6f,338,301
  200+3*4=41>4,30f 201+3*4=61>4,30f 202+3*4=41>4,311 203+3*4=61>4,311 20c+2*2=4f,30f>2
  20d+2*2=6f,30f>2 210+2*2=52,30f>2 211+2*2=72,30f>2 214+2*2=55,30f>2 215+2*2=75,30f>2
  218+2*2=53>1,326 219+2*2=73>1,326 21e=48,30c 21f=68,30c 226=41,307 227=61,307 228=45,327
  229=65,327 22a+2*2=d6<1,304 22b+2*2=f6<1,304 22e=4f,307 22f=6f,307 230+2=22e>1,304 232=59,304
  233=79,304 344=308,301 374=2b9 37e=3b 384+2*3=b4>3 385=a8,301 386=391,301 388+3=395>2,301
  38c=39f,301 38e=3a5,301 38f=3a9,301 390=3ca,301 3aa=399,308 3ab=3a5,308 3ac=3b1,301
  3ad+3=3b5>2,301 3b0=3cb,301 3ca=3b9,308 3cb=3c5,308 3cc=3bf,301 3cd=3c5,301 3ce=3c9,301
  3d3=3d2,301 3d4=3d2,308 400=415,300 401=415,308 403=413,301 407=406,308 40c=41a,301 40d=418,300
  40e=423,306 450=435,300 451=435,308 453=433,301 457=456,308 45c=43a,301 45d=438,300 45e=443,306
  476+2=474>1,30f 4c1=416,306 4c2=436,306 4d0+2*2=410,306>2 4d1+2*2=430,306>2 4d6+2*8=415>2,306>2
  4d7+2*8=435>2,306>2 4da+2=4d8>1,308 4dc+2*8=416>2,308 4dd+2*8=436>2,308 4e2=418,304 4e3=438,304
  4e6=41e,308 4e7=43e,308 4ea+2=4e8>1,308 4ec=42d,308 4ed=44d,308 4ee=423,304 4ef=443,304
  4f0+3*4=423>4,308 4f1+3*4=443>4,308 4f2=423,30b 4f3=443,30b 6c0=6d5,654 6c2=6c1,654 6d3=6d2,654
  929+2*8=928>8,93c 934=933,93c 958+3=915>1,93c 95b=91c,93c 95c+2=921>1,93c 95e=92b,93c
  95f=92f,93c 9dc+2=9a1>1,9bc 9df=9af,9bc a33=a32,a3c a36=a38,a3c a59+2=a16>1,a3c a5b=a1c,a3c
  a5e=a2b,a3c b5c+2=b21>1,b3c f43=f42,fb7 f4d=f4c,fb7 f52=f51,fb7 f57=f56,fb7 f5c=f5b,fb7
  f69=f40,fb5 f93=f92,fb7 f9d=f9c,fb7 fa2=fa1,fb7 fa7=fa6,fb7 fac=fab,fb7 fb9=f90,fb5 1e00=41,325
  1e01=61,325 1e02+2*8=42>2,307 1e03+2*8=62>2,307 1e04+2*8=42>2,323 1e05+2*8=62>2,323
  1e06+2*8=42>2,331 1e07+2*8=62>2,331 1e08=c7,301 1e09=e7,301 1e10=44,327 1e11=64,327 1e12=44,32d
  1e13=64,32d 1e14+2=112>1,300 1e16+2=112>1,301 1e18=45,32d 1e19=65,32d 1e1a=45,330 1e1b=65,330
  1e1c+2=228>1,306 1e1e+2*4=46>2,307 1e1f+2*4=66>2,307 1e20=47,304 1e21=67,304 1e24+2*4=48,323>4
  1e25+2*4=68,323>4 1e26=48,308 1e27=68,308 1e2a+2*2=48>1,32e>2 1e2b+2*2=68>1,32e>2 1e2e=cf,301
  1e2f=ef,301 1e30=4b,301 1e31=6b,301 1e32+2*4=4b>1,323 1e33+2*4=6b>1,323 1e34=4b,331 1e35=6b,331
  1e38+2=1e36>1,304 1e3a=4c,331 1e3b=6c,331 1e3c=4c,32d 1e3d=6c,32d 1e3e=4d,301 1e3f=6d,301
  1e40+2*4=4d>1,307 1e41+2*4=6d>1,307 1e42+2*4=4d>1,323 1e43+2*4=6d>1,323 1e48=4e,331 1e49=6e,331
  1e4a=4e,32d 1e4b=6e,32d 1e4c=d5,301 1e4d=f5,301 1e4e=d5,308 1e4f=f5,308 1e50+2=14c>1,300
  1e52+2=14c>1,301 1e54=50,301 1e55=70,301 1e56+2*2=50>2,307 1e57+2*2=70>2,307 1e5a+2*8=52>1,323
  1e5b+2*8=72>1,323 1e5c+2=1e5a>1,304 1e5e=52,331 1e5f=72,331 1e60=53,307 1e61=73,307
  1e64+2=15a>1,307 1e66+2=160>1,307 1e68+2=1e62>1,307 1e6a=54,307 1e6b=74,307 1e6c=54,323
  1e6d=74,323 1e6e=54,331 1e6f=74,331 1e70=54,32d 1e71=74,32d 1e72=55,324 1e73=75,324 1e74=55,330
  1e75=75,330 1e76=55,32d 1e77=75,32d 1e78+2=168>1,301 1e7a+2=16a>1,308 1e7c=56,303 1e7d=76,303
  1e7e=56,323 1e7f=76,323 1e80+2*2=57,300>1 1e81+2*2=77,300>1 1e84+2*2=57,308<1 1e85+2*2=77,308<1
  1e88=57,323 1e89=77,323 1e8a+2*2=58,307>1 1e8b+2*2=78,307>1 1e8e=59,307 1e8f=79,307 1e90=5a,302
  1e91+2*8=7a<1,302>8 1e92=5a,323 1e93=7a,323 1e94=5a,331 1e95=7a,331 1e96=68,331 1e97=74,308
  1e98=77,30a 1e9b=17f,307 1ea0=41,323 1ea1=61,323 1ea2=41,309 1ea3=61,309 1ea4+2*2=c2,301<1
  1ea5+2*2=e2,301<1 1ea8=c2,309 1ea9=e2,309 1eaa=c2,303 1eab=e2,303 1eac+2=1ea0>1,302
  1eae+2=102>1,301 1eb0+2=102>1,300 1eb2+2=102>1,309 1eb4+2=102>1,303 1eb6+2=1ea0>1,306
  1eb8=45,323 1eb9=65,323 1eba=45,309 1ebb=65,309 1ebc=45,303 1ebd=65,303 1ebe+2*2=ca,301<1
  1ebf+2*2=ea,301<1 1ec2=ca,309 1ec3=ea,309 1ec4=ca,303 1ec5=ea,303 1ec6+2=1eb8>1,302 1ec8=49,309
  1ec9=69,309 1eca=49,323 1ecb=69,323 1ecc=4f,323 1ecd=6f,323 1ece=4f,309 1ecf=6f,309
  1ed0+2*2=d4,301<1 1ed1+2*2=f4,301<1 1ed4=d4,309 1ed5=f4,309 1ed6=d4,303 1ed7=f4,303
  1ed8+2=1ecc>1,302 1eda+2=1a0>1,301 1edc+2=1a0>1,300 1ede+2=1a0>1,309 1ee0+2=1a0>1,303
  1ee2+2=1a0>1,323 1ee4=55,323 1ee5=75,323 1ee6=55,309 1ee7=75,309 1ee8+2=1af>1,301
  1eea+2=1af>1,300 1eec+2=1af>1,309 1eee+2=1af>1,303 1ef0+2=1af>1,323 1ef2=59,300 1ef3=79,300
  1ef4=59,323 1ef5=79,323 1ef6=59,309 1ef7=79,309 1ef8=59,303 1ef9=79,303 1f00+2=3b1,313>1
  1f02+b*8=1f00>8,300 1f03+e*8=1f01>8,300 1f04+b*8=1f00>8,301 1f05+e*8=1f01>8,301
  1f06+2=1f00>1,342 1f08+2=391,313>1 1f0e+2=1f08>1,342 1f10+2=3b5,313>1 1f18+2=395,313>1
  1f20+2=3b7,313>1 1f26+4*8=1f20>8,342 1f27+4*8=1f21>8,342 1f28+2=397,313>1 1f30+2=3b9,313>1
  1f38+2=399,313>1 1f40+2=3bf,313>1 1f48+2=39f,313>1 1f50+2=3c5,313>1 1f56+2=1f50>1,342
  1f59=3a5,314 1f5f+3*8=1f59>8,342 1f60+2=3c9,313>1 1f62+2*2=1f60,300>1 1f66+2*8=1f60>8,342
  1f68+2=3a9,313>1 1f6a+2*2=1f68,300>1 1f70=3b1,300 1f71+4*2=3ac>1 1f72+3*2=3b5>2,300 1f78=3bf,300
  1f79+3*2=3cc>1 1f7a=3c5,300 1f7c=3c9,300 1f80+10=1f00>1,345 1f90+10=1f20>1,345
  1fa0+10=1f60>1,345 1fb0=3b1,306 1fb1=3b1,304 1fb2=1f70,345 1fb3=3b1,345 1fb4=3ac,345
  1fb6=3b1,342 1fb7=1fb6,345 1fb8=391,306 1fb9=391,304 1fba=391,300 1fbb=386 1fbc=391,345 1fbe=3b9
  1fbf=1fbd 1fc1=a8,342 1fc2=1f74,345 1fc3=3b7,345 1fc4=3ae,345 1fc6=3b7,342 1fc7=1fc6,345
  1fc8+2*2=395>2,300 1fc9+2*2=388>1 1fcc=397,345 1fcd+2=1fbd,300>1 1fcf=1fbd,342 1fd0=3b9,306
  1fd1=3b9,304 1fd2=3ca,300 1fd3=390 1fd6=3b9,342 1fd7=3ca,342 1fd8=399,306 1fd9=399,304
  1fda=399,300 1fdb=38a 1fdd+2=1ffe,300>1 1fdf=1ffe,342 1fe0=3c5,306 1fe1=3c5,304 1fe2=3cb,300
  1fe3=3b0 1fe4+2=3c1,313>1 1fe6=3c5,342 1fe7=3cb,342 1fe8=3a5,306 1fe9=3a5,304 1fea=3a5,300
  1feb=38e 1fec=3a1,314 1fed=a8,300 1fee=385 1fef=60 1ff2=1f7c,345 1ff3=3c9,345 1ff4=3ce,345
  1ff6=3c9,342 1ff7=1ff6,345 1ff8=39f,300 1ff9=38c 1ffa=3a9,300 1ffb=38f 1ffc=3a9,345 1ffd=b4
  2000+2=2002>1 210f=68,335 2126=3a9 212a=4b 212b=c5 219a+2=2190>2,338 21ae=2194,338
  21cd+2*2=21d0>2,338 21ce=21d4,338 2204+2*8=2203>8,338 2209=2208,338 2224+2*2=2223>2,338
  2241=223c,338 2244+2*3=2243>2,338 2249=2248,338 2260=3d,338 2262=2261,338 226d=224d,338
  226e+2=3c>2,338 2270+2=2264>1,338 2274+2=2272>1,338 2278+2=2276>1,338 2280+2=227a>1,338
  2284+2=2282>1,338 2288+2=2286>1,338 22ac=22a2,338 22ad+2=22a8>1,338 22af=22ab,338
  22e0+2=227c>1,338 22e2+2=2291>1,338 22ea+4=22b2>1,338 2329+2=3008>1 2adc=2add,338
  3032+2*2=3031>2,3099 304c+c*2=304b>2,3099 3065+3*2=3064>2,3099 3070+5*3=306f>3,3099
  3071+5*3=306f>3,309a 3094=3046,3099 309e=309d,3099 30ac+c*2=30ab>2,3099 30c5+3*2=30c4>2,3099
  30d0+5*3=30cf>3,3099 30d1+5*3=30cf>3,309a 30f4=30a6,3099 30f7+4=30ef>1,3099 30fe=30fd,3099
  fb1d=5d9,5b4 fb1f=5f2,5b7 fb2a+2=5e9,5c1>1 fb2c+2=fb49,5c1>1 fb2e+2=5d0,5b7>1 fb30+9*2=5d0>2,5bc
  fb31+4*8=5d1>8,5bc fb33+3*8=5d3>8,5bc fb35=5d5,5bc fb44+4*2=5e4>2,5bc fb47=5e7,5bc fb4b=5d5,5b9
  fb4c=5d1,5bf fb4d=5db,5bf fb4e=5e4,5bf 1109a+2*2=11099>2,110ba 110ab=110a5,110ba 16e96=33,110000
  1d15e+2=1d157>1 1d160+5=1d158 1d1bb+3*2=1d1b9 1d1bc+3*2=1d1ba f73=f71,f72 f75=f71,f74
  f81=f71,f80 110005=fb2,f71 110006=fb2,11000b 110007=fb2,11000c 110008=fb3,f71 110009=fb3,11000b
  11000a=fb3,11000c" ++
  Composite.ideographs 0xF900 (
    "豈更車賈滑串句龜龜契金喇奈懶癩羅蘿螺裸邏樂洛烙珞落酪駱亂卵欄爛蘭鸞嵐濫藍襤拉臘蠟廊朗浪狼郎來" ++
    "冷勞擄櫓爐盧老蘆虜路露魯鷺碌祿綠菉錄鹿論壟弄籠聾牢磊賂雷壘屢樓淚漏累縷陋勒肋凜凌稜綾菱陵讀拏" ++
    "樂諾丹寧怒率異北磻便復不泌數索參塞省葉說殺辰沈拾若掠略亮兩凉梁糧良諒量勵呂女廬旅濾礪閭驪麗黎" ++
    "力曆歷轢年憐戀撚漣煉璉秊練聯輦蓮連鍊列劣咽烈裂說廉念捻殮簾獵令囹寧嶺怜玲瑩羚聆鈴零靈領例禮醴" ++
    "隸惡了僚寮尿料樂燎療蓼遼龍暈阮劉杻柳流溜琉留硫紐類六戮陸倫崙淪輪律慄栗率隆利吏履易李梨泥理痢" ++
    "罹裏裡里離匿溺吝燐璘藺隣鱗麟林淋臨立笠粒狀炙識什茶刺切度拓糖宅洞暴輻行降見廓兀嗀﨎﨏塚﨑晴﨓" ++
    "﨔凞猪益礼神祥福靖精羽﨟蘒﨡諸﨣﨤逸都﨧﨨﨩飯飼館鶴郞隷侮僧免勉勤卑喝嘆器塀墨層屮悔慨憎懲敏" ++
    "既暑梅海渚漢煮爫琢碑社祉祈祐祖祝禍禎穀突節練縉繁署者臭艹艹著褐視謁謹賓贈辶逸難響頻恵𤋮舘﩮﩯" ++
    "並况全侀充冀勇勺喝啕喙嗢塚墳奄奔婢嬨廒廙彩徭惘慎愈憎慠懲戴揄搜摒敖晴朗望杖歹殺流滛滋漢瀞煮瞧" ++
    "爵犯猪瑱甆画瘝瘟益盛直睊着磌窱節类絛練缾者荒華蝹襁覆視調諸請謁諾諭謹變贈輸遲醙鉶陼難靖韛響頋" ++
    "頻鬒龜𢡊𢡄𣏕㮝䀘䀹𥉉𥳐𧻓齃龎") ++
  Composite.ideographs 0x2F800 (
    "丽丸乁𠄢你侮侻倂偺備僧像㒞𠘺免兔兤具𠔜㒹內再𠕋冗冤仌冬况𩇟凵刃㓟刻剆割剷㔕勇勉勤勺包匆北卉卑" ++
    "博即卽卿卿卿𠨬灰及叟𠭣叫叱吆咞吸呈周咢哶唐啓啣善善喙喫喳嗂圖嘆圗噑噴切壮城埴堍型堲報墬𡓤売壷" ++
    "夆多夢奢𡚨𡛪姬娛娧姘婦㛮㛼嬈嬾嬾𡧈寃寘寧寳𡬘寿将当尢㞁屠屮峀岍𡷤嵃𡷦嵮嵫嵼巡巢㠯巽帨帽幩㡢𢆃" ++
    "㡼庰庳庶廊𪎒廾𢌱𢌱舁弢弢㣇𣊸𦇚形彫㣣徚忍志忹悁㤺㤜悔𢛔惇慈慌慎慌慺憎憲憤憯懞懲懶成戛扝抱拔捐" ++
    "𢬌挽拼捨掃揤𢯱搢揅掩㨮摩摾撝摷㩬敏敬𣀊旣書晉㬙暑㬈㫤冒冕最暜肭䏙朗望朡杞杓𣏃㭉柺枅桒梅𣑭梎栟" ++
    "椔㮝楂榣槪檨𣚣櫛㰘次𣢧歔㱎歲殟殺殻𣪍𡴋𣫺汎𣲼沿泍汧洖派海流浩浸涅𣴞洴港湮㴳滋滇𣻑淹潮𣽞𣾎濆瀹" ++
    "瀞瀛㶖灊災灷炭𠔥煅𤉣熜𤎫爨爵牐𤘈犀犕𤜵𤠔獺王㺬玥㺸㺸瑇瑜瑱璅瓊㼛甤𤰶甾𤲒異𢆟瘐𤾡𤾸𥁄㿼䀈直𥃳" ++
    "𥃲𥄙𥄳眞真真睊䀹瞋䁆䂖𥐝硎碌磌䃣𥘦祖𥚚𥛅福秫䄯穀穊穏𥥼𥪧𥪧竮䈂𥮫篆築䈧𥲀糒䊠糨糣紀𥾆絣䌁緇縂" ++
    "繅䌴𦈨𦉇䍙𦋙罺𦌾羕翺者𦓚𦔣聠𦖨聰𣍟䏕育脃䐋脾媵𦞧𦞵𣎓𣎜舁舄辞䑫芑芋芝劳花芳芽苦𦬼若茝荣莭茣莽" ++
    "菧著荓菊菌菜𦰶𦵫𦳕䔫蓱蓳蔖𧏊蕤𦼬䕝䕡𦾱𧃒䕫虐虜虧虩蚩蚈蜎蛢蝹蜨蝫螆䗗蟡蠁䗹衠衣𧙧裗裞䘵裺㒻𧢮" ++
    "𧥦䚾䛇誠諭變豕𧲨貫賁贛起𧼯𠠄跋趼跰𠣞軔輸𨗒𨗭邔郱鄑𨜮鄛鈸鋗鋘鉼鏹鐕𨯺開䦕閷𨵷䧦雃嶲霣𩅅𩈚䩮䩶" ++
    "韠𩐊䪲𩒖頋頋頩𩖶飢䬳餩馧駂駾䯎𩬰鬒鱀鳽䳎䳭鵧𪃎䳸𪄅𪈎𪊑麻䵖黹黾鼅鼏鼖鼻𪘀")

/-- The characters whose members take a form. A character that is its own member is in the alphabet
and has a form of its own. -/
def variants : List (Form × List Composite) := [
  (.plain, Composite.listOfText "
  660+a=30>1 6f0+a=30>1 7c0+a=30>1 966+a=30>1 9e6+a=30>1 a66+a=30>1 ae6+a=30>1 b66+a=30>1
  be6+a=30>1 c66+a=30>1 c78+4=30>1 c7c+3=31>1 ce6+a=30>1 d66+a=30>1 de6+a=30>1 e50+a=30>1
  ed0+a=30>1 f20+a=30>1 1040+a=30>1 1090+a=30>1 1369+9=31>1 17e0+a=30>1 17f0+a=30>1 1810+a=30>1
  1946+a=30>1 19d0+a=30>1 19da=31 1a80+a=30>1 1a90+a=30>1 1b50+a=30>1 1bb0+a=30>1 1c40+a=30>1
  1c50+a=30>1 2185=36 3007=30 3021+9=31>1 a620+a=30>1 a8d0+a=30>1 a900+a=30>1 a9d0+a=30>1
  a9f0+a=30>1 aa50+a=30>1 abf0+a=30>1 10107+9=31>1 10142=31 10143=35 10148=35 1014f=35 10158+3=31
  1015b+4=32 1015f=35 10173=35 1018a=30 102e1+9=31>1 10320=31 10321=35 103d1+2=31>1 104a0+a=30>1
  10858+3=31>1 10879+5=31>1 108a7+4=31>1 108ab+2=34>1 108fb=31 108fc=35 10916+2*4=31>1 1091b=33
  109c0+9=31>1 10a40+4=31>1 10a7d=31 10a9d=31 10aeb=31 10aec=35 10b58+4=31>1 10b78+4=31>1
  10ba9+4=31>1 10cfa=31 10cfb=35 10d30+a=30>1 10e60+9=31>1 10f1d+5=31>1 10f51=31 10fc5+4=31>1
  11052+9=31>1 11066+a=30>1 110f0+a=30>1 11136+a=30>1 111d0+a=30>1 111e1+9=31>1 112f0+a=30>1
  11450+a=30>1 114d0+a=30>1 11650+a=30>1 116c0+a=30>1 11730+a=30>1 118e0+a=30>1 11950+a=30>1
  11c50+a=30>1 11c5a+9=31>1 11d50+a=30>1 11da0+a=30>1 12400+8=32>1 12408+7=33>1 1240f+6=34>1
  12415+9=31>1 1241e+5=31>1 12423+2=32>1 12425+7=33>1 1242c+3=31>1 1242f+3=33>1 12434+3=31>1
  12437+3=33>1 1243a+2=33 1243c+4=34 12440+4*2=36>1 12441+3*4=37>1 12443+2*4=37>2 12448=39
  1244a+5=32>1 1244f+4=31>1 12453+2=34>1 12455=35 12456+2=32>1 12458+2=31>1 12469+6=34>1
  16a60+a=30>1 16b50+a=30>1 16e80+a=30>1 1d2e0+a=30>1 1d360+9=31>1 1d372+5=31>1 1d377=31 1d378=35
  1e140+a=30>1 1e2f0+a=30>1 1e8c7+9=31>1 1e950+a=30>1 1ec71+9=31>1 1eca3+9=31>1 1ed01+9=31>1"),
  (.wide, Composite.listOfText "
  3000=20 ff01+5e=21>1 ff5f+2=2985>1 ffe0+2=a2>1 ffe2=ac ffe3=af ffe4+2=a6<1 ffe6=20a9"),
  (.compatible, Composite.listOfText "
  b5=3bc c6=41,110000,45 d0=44,110000 df=73,110000,73 e6=61,110000,65 f0=64,110000 132=49,4a
  133=69,6a 149=2bc,6e 152=4f,110000,45 153=6f,110000,65 17f=73,110001 18d=7a,77 1be=74,73
  1c4+2=44,17d>1 1c6=64,17e 1c7+2*3=4c>2,4a 1c8+2*3=4c>2,6a 1c9+2*3=6c>2,6a 1f1=44,5a 1f2=44,7a
  1f3=64,7a 238=64,62 239=71,70 2a3+2*8=64>8,7a 2a4+2=64,292<1 2a6=74,73 2a7=74,283 2a8=74,255
  2a9=66,14b 2aa=6c,73 363=61 364=65 365=69 366=6f 367=75 368+2=63>1 36a=68 36b=6d 36c+4=72>2
  37a=3b9 3cf=39a,3b1,3b9 3d0=3b2 3d1=3b8 3d2=3a5 3d5=3c6 3d6=3c0 3d7=3ba,3b1,3b9 3f0=3ba
  3f1+2=3c1>1 3f4=398 3f5=3b5 3f9=3a3 490=413,110001 491=433,110001 587=565,582
  5ef=5d9,5d4,5d5,5d4 5f0=5d5,5d5 5f1=5d5,5d9 5f2=5d9,5d9 674=621 675=627,674 676+2*2=648>2,674
  677=6c7,674 6e5+2=648>2 6fd=621,110001 6fe=645,110001 714+2*8=713>8,110001 727=726,110001
  72d+2=712>1,110002 72f=715,110002 7e8+2=7d6>1,110000 7ea=7d9,110000 8ad=627 9ce=9a4,9cd
  d3b+2=d4d d4e=d30,d4d d54+2=d2e>1,d4d d56=d34,d4d d7a=d23,d4d d7b=d28,d4d d7c+2=d30>2,d4d
  d7e=d33,d4d d7f=d15,d4d edc=eab,e99 edd=eab,ea1 f00=f68,f7c,902 f2a+9=31>1 f33=30 f6a=f62,110001
  fba=fad,110001 fbb+2=fb1>1,110001 102b=102c 103f=101e,1039,101e 1680=20 16a1+2*3=16a0>2,110000
  16a5=16a2,110001 16a7+2*2=16a6>2,110000 16ac+3=16a8,110001>1 16b3+4=16b2,110000>1
  16bb+3=16ba,110000>1 16bf+2=16be,110000>1 16c2+3*2=16c1>2,110000 16cb+3*8=16ca>8,110000
  16cc+3=16ca,110002>1 16d0+2=16cf,110000>1 16d4=16d2,110001 16d5=16c8,110000 16d8+2=16d7,110000>1
  16dd=16dc,110000 16e7+2=16e6,110000>1 16e9=16b9,110000 16ea=16ca,110001 16ee=16c5,16da
  16ef=16d7,110000,16d7,110000 16f0=16a6,16a6 191d=1908,1929 191e=190b,192a 19de=199c,19b6
  19df=199c,19b6,19c1 1a54=1a46,1a60,1a46 1a58+2=1a26 1a5a+2=1a3b 1a64=1a63 1abf=77 1ac0=28d
  1bba=1b83 1bc1+2*2=1bc0>2 1bc4=1bc2 1bc6+4*2=1bc5>2 1bcd=1bcb 1bcf+3*4=1bce>4 1bd5+2*4=1bd4>4
  1bda=1bd8 1bdc+2*3=1bdb>3 1be8+2*3=1be7>3 1bed+2*2=1bec>2 1c80+2=432>2 1c82=43e 1c83+2=441>1
  1c85=442 1c86=44a 1c87=463 1c88=a64b 1cea+4*2=1ce9 1ceb+2*4=1ce9 1cf1=1ce9 1cfa=1ce9
  1d79=67,110001 1d7a=74,110000,68 1dca=72 1dd2=a76f 1dd3=61,110000 1dd4=61,110000,65 1dd5=61,6f
  1dd6=61,76 1dd7=63,327 1dd8+2=64,110001<1 1dda=67 1ddb=262 1ddc+2=6b>1 1dde=29f 1ddf=1d0d
  1de0=6e 1de1=274 1de2=280 1de3=a75b 1de4=73 1de5=73,110001 1de6=7a 1de7=251 1de8=62 1de9=a7b5
  1dea=259 1deb=66 1dec=ab38 1ded=6f,316 1dee=70 1def=283 1df0=75,316 1df1=77 1df2=61,308
  1df3=6f,308 1df4=75,308 1e9a=61,2be 1e9e=53,110000,53 1efb=6c,6c 2002+5=20 2008+3=20 2024=2e
  2025=2e,2e 2026=2e,2e,2e 2033+2*3=2032>3,2032>3 2034+2*3=2032>3,2032>3,2032>3 203c=21,21
  2047=3f,3f 2048=3f,21 2049=21,3f 2057=2032,2032,2032,2032 205f=20 20a8=52,73 2100=61,2f,63
  2101=61,2f,73 2103=b0,43 2105=63,2f,6f 2106=63,2f,75 2107=190 2109=b0,46 2116=4e,6f
  2121=54,45,4c 2135+4=5d0>1 213b=46,41,58 214d=41,2f,53 2160=49 2161=49,49 2162=49,49,49
  2163=49,56 2164=56 2165=56,49 2166=56,49,49 2167=56,49,49,49 2168=49,58 2169=58 216a=58,49
  216b=58,49,49 216c+2*3=4c>1 216d+2=43>1 2170=69 2171=69,69 2172=69,69,69 2173=69,76 2174=76
  2175=76,69 2176=76,69,69 2177=76,69,69,69 2178=69,78 2179=78 217a=78,69 217b=78,69,69
  217c+2*3=6c>1 217d+2=63>1 222c+2*3=222b>3,222b>3 222d+2*3=222b>3,222b>3,222b>3 2474+9=28,31>1,29
  247d+a=28,31,30>1,29 2487=28,32,30,29 2488+9=31>1,2e 2491+a=31,30>1,2e 249b=32,30,2e
  249c+1a=28,61>1,29 2a0c=222b,222b,222b,222b 2a74=3a,3a,3d 2a75=3d,3d 2a76=3d,3d,3d
  2ce4=2c95,2c81,2c93 2de0+4=431>1 2de4+2=436>1 2de6+9=43a>1 2def+5=445>1 2df4=473 2df5=441,442
  2df6=430 2df7=435 2df8+2=a649>2 2dfa=463 2dfb=44e 2dfc=a657 2dfd=467 2dfe+2=46b>2
  2e80=4e36,110000 2e81=5382,110000 2e82+2=4e5b<1 2e84=4e59,110000 2e85=4ebb 2e86=5182,110000
  2e87=51e0,110000 2e88=5200,110000 2e89=5202 2e8a=535c,110000 2e8b=5369,110000
  2e8c+2=5c0f,110000>1 2e8e+2*3=5c22>1,110000 2e8f+2=5c23<1 2e92=5df3 2e93=5e7a 2e94=5f51
  2e95=5f50,110000 2e96=5fc4 2e97=5fc3,110000 2e98=624c 2e99=6535 2e9b=65e1 2e9c=65e5,110000
  2e9d=6708,110000 2e9e=6b7a,110000 2e9f=6bcd 2ea0=6c11 2ea1=6c35 2ea2=6c3a 2ea3=706c 2ea4=722b
  2ea5=722b,110000 2ea6=4e2c 2ea7=725b,110000 2ea8=72ad 2ea9=738b,110000 2eaa=758b,110000
  2eab=76ee,110000 2eac=793a,110000 2ead=793b 2eae=7af9,110000 2eaf=7cf9 2eb0=7e9f 2eb1+2=7f53<1
  2eb3+2=7f53,110000>1 2eb5=7f52,110000 2eb6+2=7f8a,110000>1 2eb8=7f8b 2eb9=8002 2eba=8080
  2ebb=807f,110000 2ebc=8089,110000 2ebd=81fc,110000 2ebe=8279 2ebf+2=8279,110000>1 2ec1=864e
  2ec2=8864 2ec3+2=8980<1 2ec5=89c1 2ec6=89d2 2ec7=89d2,110000 2ec8=8ba0 2ec9=8d1d
  2eca=8db3,110000 2ecb=8f66 2ecc=8fb6 2ecd+2=8fb6,110000>1 2ecf=9091,110000 2ed0=9485
  2ed1+2=9577>1 2ed3=957f 2ed4=95e8 2ed5=961c,110000 2ed6=961d 2ed7=96e8,110000 2ed8=9752
  2ed9=97e6 2eda=9875 2edb=98ce 2edc+2=98de>1 2ede=98e0,110000 2edf=98e0 2ee0=9963
  2ee1=9996,110000 2ee2=9a6c 2ee3=9aa8,110000 2ee4=9b3c,110000 2ee5=9c7c 2ee6=9e1f
  2ee7=9e75,110000 2ee8=9ea6 2ee9=9ec4 2eea=9efe 2eeb=9f4a,110000 2eec=9f50 2eed=9f52,110000
  2eee=9f7f 2eef=9f8d,110000 2ef0=9f99 2ef1+2=9f9c,110000>1 2ef3=9f9f 3006=3057,3081 3036=3012
  3038=5341 3039+2=5344>1 303c=307e,3059 312e=311c 3131+2=1100>1 3133+2*2=11aa>2 3134+2*3=1102>1
  3136=11ad 3138+2=1104>1 313a+6=11b0>1 3140=111a 3141+3=1106>1 3144=1121 3145+a=1109>1
  314f+15=1161>1 3164=1160 3165+2=1114>1 3167+2=11c7>1 3169+2=11cc>2 316b=11d3 316c+2=11d7>2
  316e+2*3=111c>1 316f+2=11dd>2 3172+3=111e>2 3175=1123 3176+3=1127>2 3179+4=112c>1 317d=1132
  317e=1136 317f=1140 3180=1147 3181=114c 3182+2=11f1>1 3184+3=1157>1 3187+2=1184>1 3189=1188
  318a+2=1191>1 318c=1194 318d=119e 318e=11a1 31a0=3105,110001 31a1=3117,110001 31a2=3110,110001
  31a3=310d,110001 31a5=31a4,110001 31a7+2*2=311b<1,110001 31a8+2*2=3128<1,110002<1
  31ab=3128,110001 31ae+2=311e>2,110001 3200+2=28,1100>2,29 3202+2=28,1103>2,29
  3204+2=28,1106>1,29 3206+2=28,1109>2,29 3208+2=28,110c>2,29 320a+4=28,110f>1,29
  320e+2=28,1100>2,1161,29 3210+2=28,1103>2,1161,29 3212+2=28,1106>1,1161,29
  3214+2=28,1109>2,1161,29 3216+2=28,110c>2,1161,29 3218+4=28,110f>1,1161,29 321c=28,110c,116e,29
  321d=28,110b,1169,110c,1165,11ab,29 321e=28,110b,1169,1112,116e,29 3220=28,4e00,29
  3221=28,4e8c,29 3222=28,4e09,29 3223=28,56db,29 3224=28,4e94,29 3225=28,516d,29 3226=28,4e03,29
  3227=28,516b,29 3228=28,4e5d,29 3229=28,5341,29 322a+2*8=28,6708>1,29 322b=28,706b,29
  322c=28,6c34,29 322d=28,6728,29 322e=28,91d1,29 322f=28,571f,29 3230=28,65e5,29 3231=28,682a,29
  3233=28,793e,29 3234=28,540d,29 3235=28,7279,29 3236=28,8ca1,29 3237=28,795d,29 3238=28,52b4,29
  3239=28,4ee3,29 323a=28,547c,29 323b=28,5b66,29 323c=28,76e3,29 323d=28,4f01,29 323e=28,8cc7,29
  323f=28,5354,29 3240=28,796d,29 3241=28,4f11,29 3242=28,81ea,29 3243=28,81f3,29 32c0+9=31>1,6708
  32c9+3=31,30>1,6708 3358+a=30>1,70b9 3362+a=31,30>1,70b9 336c+5=32,30>1,70b9 33e0+9=31>1,65e5
  33e9+a=31,30>1,65e5 33f3+a=32,30>1,65e5 33fd+2=33,30>1,65e5 a610=a558 a611=a56a a612=a587
  a613=a50c,a60b a614=a51e,a60b a615=a533,a60b a616=a547,a60c a617=a552,a60b a618+2=a558>2,a60c
  a61a=a560,a60b a61b=a585,a60b a61c=a5b4,a60b a61d=a5cb,a60b a61e=a5d1,a60c a61f=a5d8,a60b
  a62a=a56e a62b=a5d1 a669+3*2=43e a66e=43e a674=454 a675=438 a676=456,308 a677=443 a678+3=44a>1
  a67b=461 a699+2*2=43e a69e=444 a69f=465 a728=54,7a a729=74,7a a733=61,61 a735=61,6f
  a737+2*2=61,75>1 a73a=41,110000,56 a73b=61,110000,76 a73d=61,79 a74f=6f,6f a761=76,79
  a779+2*2=44>2,110001 a77a+2*2=64>2,110001 a77d=47,110001 a782+3*2=52>1,110001
  a783+3*2=72>1,110001 a79a=41,308 a79b=61,308 a79c=4f,308 a79d=6f,308 a79e=55,308 a79f=75,308
  a7a0=47,336 a7a1=67,336 a7a2=4b,336 a7a3=6b,336 a7a4=4e,336 a7a5=6e,336 a7a6+2*2=52>1,336
  a7a7+2*2=72>1,336 a8f3+5=a8f2 a9ac=a9ab a9b5=a9b4 ab66=64,290 ab67=74,282 fb00=66,66 fb01=66,69
  fb02=66,6c fb03=66,66,69 fb04=66,66,6c fb05=73,110001,74 fb06=73,74 fb13=574,576 fb14=574,565
  fb15+2*2=574,56b>2 fb16=57e,576 fb4f=5d0,5dc fe49+4=203e fe4d+3=5f 10376=10350 10377=10353
  10378=10357 10379=1035d 1037a=10361 10980+7=109a0>1,110000 10987+2=109a6>1,110001<1
  10989+2=109a8>1,110000 1098b+3*2=109a9>1,110001 1098c+3*2=109aa>1,110000 10991+2=109ad>1,110000
  10993+2=109af,110001>1 10995+4=109b1>1,110000 10999+2=109b4>1,110001<1 1099b+2=109b5>1,110001<1
  1099d=109b7,110000 109b0=109af,110000 10ac8=10ac7,110001 10b2e=10b2d,110000
  10c01+2*3=10c00>3,110000 10c08+6*2=10c07>2,110000 10c15+6*2=10c14>2,110000
  10c25+4*2=10c24>2,110000 10c2e=10c2d,110000 10c33+5*2=10c32>2,110000 10c40+4*2=10c3f>2,110000
  10c81=10c80,110000 10c8a+2=10c89,110000>1 10c91=10c90,110000 10c9c+2*2=10c9b>2,110000
  10c9f=10c9d,110001 10ca3+2*8=10ca2>8,110000 10cad=10cac,110000 10cc1=10cc0,110000
  10cca+2=10cc9,110000>1 10cd1=10cd0,110000 10cdc+2*2=10cdb>2,110000 10cdf=10cdd,110001
  10ce3+2*8=10ce2>8,110000 10ced=10cec,110000 10f10=10f0e,110001 10f13=10f12,110001
  10f17=10f15,110001 10f1c=10f1a,110001 10f27=10f12,10f18 10f45=10f41,110001 10ff6=10fe6,10fe9
  115d8+2=11582,110000>1 115da+2=11583>1,110000 115dc+2=115b2>1,110000 11705=11704,110000
  11716=11715,110000 1171a=11708,110000 16e94+2=31>1,110000 16f06=16f04 16f13=16f10 16f25=16f23
  16f3f=16f3d 1e000+f*3=2c30>3 1e001+2=2c31>1 1e004+2=2c34>1 1e008+6*3=2c38>3 1e00a+5*3=2c3a>3
  1e01c+2=2c4c>1 1e01f+2=2c4f>1 1e023+3*3=2c53>3 1e028=2c58 1ecb1+2=31>1,110000
  1ed2f+8=32>1,110000 1f100=30,2e 1f101+a=30>1,2c 1f110+1a=28,41>1,29 1f12a=3014,53,3015
  1f240=3014,672c,3015 1f241=3014,4e09,3015 1f242=3014,4e8c,3015 1f243=3014,5b89,3015
  1f244=3014,70b9,3015 1f245=3014,6253,3015 1f246=3014,76d7,3015 1f247=3014,52dd,3015
  1f248=3014,6557,3015" ++
    Composite.ideographs 0x2F00 (
      "一丨丶丿乙亅二亠人儿入八冂冖冫几凵刀力勹匕匚匸十卜卩厂厶又口囗土士夂夊夕大女子宀寸小尢尸屮山" ++
      "巛工己巾干幺广廴廾弋弓彐彡彳心戈戶手支攴文斗斤方无日曰月木欠止歹殳毋比毛氏气水火爪父爻爿片牙" ++
      "牛犬玄玉瓜瓦甘生用田疋疒癶白皮皿目矛矢石示禸禾穴立竹米糸缶网羊羽老而耒耳聿肉臣自至臼舌舛舟艮" ++
      "色艸虍虫血行衣襾見角言谷豆豕豸貝赤走足身車辛辰辵邑酉釆里金長門阜隶隹雨靑非面革韋韭音頁風飛食" ++
      "首香馬骨高髟鬥鬯鬲鬼魚鳥鹵鹿麥麻黃黍黑黹黽鼎鼓鼠鼻齊齒龍龜龠")),
  (.font, Composite.listOfText "
  2102=43 210a+2*4=67>1 210b+3=48 2110+2=49 2112+2*3=4c>2 2113=6c 2119+3=50>1 211c+2=52
  2124+2*4=5a 212c+2=42>1 212f=65 2130+2=45>1 2133=4d 2134=6f 2139=69 213c=3c0 213d=3b3 213e=393
  213f=3a0 2140=2211 2145=44 2146+2=64>1 2148+2=69>1 fb20+2*8=5e2>8 fb21=5d0 fb22+2=5d3>1
  fb24+3=5db>1 fb27=5e8 fb29=2b 1d400+1a=41>1 1d41a+1a=61>1 1d434+1a=41>1 1d44e+d*2=61>2
  1d44f+7*4=62>4 1d451+3*8=64>8 1d45d+2*8=70>8 1d468+1a=41>1 1d482+1a=61>1 1d49c+4*3=41>3
  1d49e+3*8=43>8 1d4a9+5*3=4e>3 1d4aa+2=4f>1 1d4b0+2=55>1 1d4b3+2=58>1 1d4b6+4=61>1 1d4bb+b*2=66>2
  1d4be+5*4=69>4 1d4c0+2*8=6b>8 1d4cc=77 1d4d0+1a=41>1 1d4ea+1a=61>1 1d504+9*3=41>3 1d505+2*3=42>3
  1d509+2*8=46>8 1d50e+2=4b>1 1d512+2*2=4f>2 1d517+2=54>1 1d51a+2=57>1 1d51e+1a=61>1
  1d538+5*3=41>3 1d539+2*3=42>3 1d53d+4*3=46>3 1d542+2*8=4b>8 1d54b+6=54>1 1d552+1a=61>1
  1d56c+1a=41>1 1d586+1a=61>1 1d5a0+1a=41>1 1d5ba+1a=61>1 1d5d4+1a=41>1 1d5ee+1a=61>1
  1d608+1a=41>1 1d622+1a=61>1 1d63c+1a=41>1 1d656+1a=61>1 1d670+1a=41>1 1d68a+1a=61>1 1d6a4=131
  1d6a5=237 1d6a8+11=391>1 1d6ba+7=3a3>1 1d6c1=2207 1d6c2+19=3b1>1 1d6db=2202 1d6dc=3f5 1d6dd=3d1
  1d6de+2*2=3f0>1 1d6df+2*2=3d5>1 1d6e2+11=391>1 1d6f4+7=3a3>1 1d6fb=2207 1d6fc+19=3b1>1
  1d715=2202 1d716=3f5 1d717=3d1 1d718+2*2=3f0>1 1d719+2*2=3d5>1 1d71c+11=391>1 1d72e+7=3a3>1
  1d735=2207 1d736+19=3b1>1 1d74f=2202 1d750=3f5 1d751=3d1 1d752+2*2=3f0>1 1d753+2*2=3d5>1
  1d756+11=391>1 1d768+7=3a3>1 1d76f=2207 1d770+19=3b1>1 1d789=2202 1d78a=3f5 1d78b=3d1
  1d78c+2*2=3f0>1 1d78d+2*2=3d5>1 1d790+11=391>1 1d7a2+7=3a3>1 1d7a9=2207 1d7aa+19=3b1>1
  1d7c3=2202 1d7c4=3f5 1d7c5=3d1 1d7c6+2*2=3f0>1 1d7c7+2*2=3d5>1 1d7ca+2=3dc>1 1d7ce+a=30>1
  1d7d8+a=30>1 1d7e2+a=30>1 1d7ec+a=30>1 1d7f6+a=30>1 1ee00+2=627>1 1ee02=62c 1ee03+2*3=62f>3
  1ee05+2*4=648>2 1ee07=62d 1ee08=637 1ee0a+4=643>1 1ee0e+2*3=633>2 1ee0f=639 1ee10+2*2=641>1
  1ee13=631 1ee14=634 1ee15+2=62a>1 1ee17+2=62e>2 1ee19+3=636>2 1ee1c+2*3=66e>1 1ee1d=6ba
  1ee1e=6a1 1ee21=628 1ee22=62c 1ee24=647 1ee27=62d 1ee29=64a 1ee2a+4=643>1 1ee2e+2*3=633>2
  1ee2f=639 1ee30+2*2=641>1 1ee34=634 1ee35+2=62a>1 1ee37=62e 1ee39=636 1ee3b=63a 1ee42=62c
  1ee47=62d 1ee49=64a 1ee4b+2*2=644>2 1ee4e+2*3=633>2 1ee4f=639 1ee52=642 1ee54=634 1ee57=62e
  1ee59=636 1ee5b=63a 1ee5d=6ba 1ee5f=66f 1ee61=628 1ee62=62c 1ee64=647 1ee67=62d 1ee68=637
  1ee69=64a 1ee6a+2*2=643>2 1ee6d=646 1ee6e+2*3=633>2 1ee6f=639 1ee70+2*2=641>1 1ee74=634
  1ee75+2=62a>1 1ee77=62e 1ee79+3=636>2 1ee7c=66e 1ee7e=6a1 1ee80+2=627>1 1ee82=62c
  1ee83+2*3=62f>3 1ee84+2=647>1 1ee87=62d 1ee88=637 1ee89=64a 1ee8b+3=644>1 1ee8e+2*3=633>2
  1ee8f=639 1ee90+2*2=641>1 1ee93=631 1ee94=634 1ee95+2=62a>1 1ee97+2=62e>2 1ee99+3=636>2
  1eea1=628 1eea2=62c 1eea3+2*3=62f>3 1eea5+2*4=648>2 1eea7=62d 1eea8=637 1eeab+3=644>1
  1eeae+2*3=633>2 1eeaf=639 1eeb0+2*2=641>1 1eeb3=631 1eeb4=634 1eeb5+2=62a>1 1eeb7+2=62e>2
  1eeb9+3=636>2 1fbf0+a=30>1"),
  (.circled, Composite.listOfText "
  2460+9=31>1 2469+a=31,30>1 2473=32,30 24b6+1a=41>1 24d0+1a=61>1 24ea=30 24eb+9=31,31>1
  24f4=32,30 24f5+9=31>1 24fe=31,30 24ff=30 2776+9=31>1 277f=31,30 2780+9=31>1 2789=31,30
  278a+9=31>1 2793=31,30 3244=554f 3245=5e7c 3246=6587 3247=7b8f 3248+8=31>1,30 3251+9=32,31>1
  325a+6=33,30>1 3260+2=1100>2 3262+2=1103>2 3264+2=1106>1 3266+2=1109>2 3268+2=110c>2
  326a+4=110f>1 326e+2=1100>2,1161 3270+2=1103>2,1161 3272+2=1106>1,1161 3274+2=1109>2,1161
  3276+2=110c>2,1161 3278+4=110f>1,1161 327c=110e,1161,11b7,1100,1169 327d=110c,116e,110b,1174
  327e=110b,116e 3280=4e00 3281=4e8c 3282=4e09 3283=56db 3284=4e94 3285=516d 3286=4e03 3287=516b
  3288=4e5d 3289=5341 328a+2*8=6708>1 328b=706b 328c=6c34 328d=6728 328e=91d1 328f=571f 3290=65e5
  3291=682a 3293=793e 3294=540d 3295=7279 3296=8ca1 3297=795d 3298=52b4 3299=79d8 329a=7537
  329b=5973 329c=9069 329d=512a 329e=5370 329f=6ce8 32a0=9805 32a1=4f11 32a2=5199 32a3=6b63
  32a4+2*2=4e0a>1 32a5=4e2d 32a7=5de6 32a8=53f3 32a9=533b 32aa=5b97 32ab=5b66 32ac=76e3 32ad=4f01
  32ae=8cc7 32af=5354 32b0=591c 32b1+4=33,36>1 32b5+a=34,30>1 32bf=35,30 1f10b+2=30 1f12b=43
  1f12c=52 1f12d=43,44 1f12e=57,5a 1f250=5f97 1f251=53ef"),
  (.capital, Composite.listOfText "
  41+1a=61>1 de=fe 14a=14b 166=167 181=253 182+2*2=183>2 186+2*3=254>2 187+2*4=188>4 18a=257
  18e=1dd 18f+2=259>2 191=192 193=260 194=263 196+2=269<1 198=199 19c=26f 19d=272 19f=275
  1a2+2*2=1a3>2 1a6+2*3=280>3 1a7=1a8 1ac=1ad 1ae+2*3=288>2 1b2=28b 1b3+2*2=1b4>2 1b7=292
  1b8+2*4=1b9>4 1e4=1e5 1f6=195 1f7=1bf 21c+2*8=21d>8 220=19e 222=223 23a+2*4=2c65>1 23b=23c
  23d=19a 241=242 243=180 244=289 245=28c 246+5*2=247>2 370+2*2=371>2 376=377 37f=3f3 391+11=3b1>1
  3a3+7=3c3>1 3d8+c*2=3d9>2 3f7+2*3=3f8>3 3fd+3=37b>1 402+5*2=452>2 405+2*4=455>4 40b+2*4=45b>4
  410+20=430>1 460+b*2=461>2 478+5*2=479>2 48a+e*4=48b>4 48c+7*8=48d>8 498+5*8=499>8 4c0=4cf
  4c3+6*2=4c4>2 4d4+2*4=4d5>4 4e0+2*8=4e1>8 4f6+f*4=4f7>4 4fc+d*4=4fd>4 531+26=561>1
  10a0+26=2d00>1 10c7=2d27 10cd=2d2d 13a0+50=ab70>1 13f0+6=13f8>1 1c90+2b=10d0>1 1cbd+3=10fd>1
  1efc+2*2=1efd>2 2132=214e 2183=2184 2c00+2f=2c30>1 2c60=2c61 2c62=26b 2c63=1d7d 2c64=27d
  2c67+3*2=2c68>2 2c6d+2*2=251<1 2c6e=271 2c70=252 2c72+2*3=2c73>3 2c7e+2=23f>1 2c80+32*2=2c81>2
  2ceb+2*2=2cec>2 2cf2=2cf3 a640+14*2=a641>2 a680+c*2=a681>2 a722+4*4=a723>4 a724+2*8=a725>8
  a73e+8*2=a73f>2 a750+8*2=a751>2 a762+7*2=a763>2 a77e+2*2=a77f>2 a78b=a78c a78d=265
  a790+2*2=a791>2 a796+2*2=a797>2 a7aa+2*4=266>4 a7ab=25c a7ac=261 a7ad=26c a7b0+2*2=29e<1
  a7b1=287 a7b3=ab53 a7b4+6*2=a7b5>2 a7c2=a7c3 a7c4=a794 a7c5=282 a7c6=1d8e a7c7+2*2=a7c8>2
  a7f5=a7f6 10400+28=10428>1 104b0+24=104d8>1 10c80+a*3=10cc0>3 10c82+3*3=10cc2>3
  10c84+2*3=10cc4>3 10c8d+5*3=10ccd>3 10c8e=10cce 10c94+5*3=10cd4>3 10ca1+4*3=10ce1>3
  10ca2+3*3=10ce2>3 10ca6+5*3=10ce6>3 10cae+2*2=10cee>2 10cb1=10cf1 118a0+20=118c0>1
  16e40+20=16e60>1 1e900+22=1e922>1"),
  (.compatibleCapital, Composite.listOfText "
  1efa=4c,4c a668+3*2=43e a698+2*2=43e a732=41,41 a734=41,4f a736+2*2=41,55>1 a73c=41,59
  a74e=4f,4f a760=56,59"),
  (.fontCapital, Composite.listOfText "
  1d6b9=3f4 1d6f3=3f4 1d72d=3f4 1d767=3f4 1d7a1=3f4"),
  (.circledCapital, Composite.listOfText "
  1f150+1a=61>1"),
  (.smallHiragana, Composite.listOfText "
  3041+5*2=3042>2 3063=3064 3083+3*2=3084>2 308e=308f 3095=304b 3096=3051 1b150+3=3090>1"),
  (.hiragana, Composite.listOfText "
  3042+5*2=3042>2 304b+c*2=304b>2 3064+6*2=3064>2 306b+3*2=306b>2 3072+7*3=3072>3 307f+2=307f>1
  3082+3*4=3082>4 3088+3*4=3088>4 3089+6*2=3089>2 3092=3092"),
  (.smallKatakana, Composite.listOfText "
  30a1+5*2=3042>2 30c3=3064 30e3+3*2=3084>2 30ee=308f 30f5=304b 30f6=3051 31f0=304f 31f1+2=3057>2
  31f3=3068 31f4=306c 31f5=306f 31f6=3072 31f7=3075 31f8=3078 31f9=307b 31fa=3080 31fb+5=3089>1
  fe50+2*2=2c>2 fe51=3001 fe54+2=3b<1 fe56=3f fe57+2*8=21>2 fe58=2014 fe59+2=28>1 fe5b+2=7b>2
  fe5d+2=3014>1 fe60=26 fe61+2=2a>1 fe63=2d fe64+2=3c>2 fe66=3d fe68=5c fe69+2=24>1 fe6b=40
  1b164+4=3090>1"),
  (.smallNarrowKatakana, Composite.listOfText "
  ff67+5=30a1>2 ff6c+3=30e3>2 ff6f=30c3"),
  (.katakana, Composite.listOfText "
  30a2+5*2=3042>2 30ab+c*2=304b>2 30c4+6*2=3064>2 30cb+3*2=306b>2 30d2+7*3=3072>3 30df+2=307f>1
  30e2+3*4=3082>4 30e8+3*4=3088>4 30e9+6*2=3089>2 30f2=3092 1b000=1b000"),
  (.narrowKatakana, Composite.listOfText "
  ff61+2*3=3002<1 ff62+2=300c>1 ff65=30fb ff66=30f2 ff70=30fc ff71+5=30a2>2 ff76+c=30ab>2
  ff82+4=30c4>2 ff86+5=30cb>1 ff8b=30d2 ff8c=30d5 ff8d=30d8 ff8e=30db ff8f+5=30de>1 ff94+3=30e4>2
  ff97+5=30e9>1 ff9c=30ef ff9d=30f3 ff9e+2=3099>1 ffa0=3164 ffa1+1e=3131>1 ffc2+6=314f>1
  ffca+6=3155>1 ffd2+6=315b>1 ffda+3=3161>1 ffe8=2502 ffe9+4=2190>1 ffed=25a0 ffee=25cb"),
  (.circledKatakana, Composite.listOfText "
  32d0+5=30a2>2 32d5+c=30ab>2 32e1+4=30c4>2 32e5+5=30cb>1 32ea=30d2 32eb=30d5 32ec=30d8 32ed=30db
  32ee+5=30de>1 32f3+3=30e4>2 32f6+5=30e9>1 32fb+4=30ef>1"),
  (.raised, Composite.listOfText "
  aa=61 b2+2=32>1 b9=31 ba=6f 2b0+2*2=68>2 2b1=266 2b3=72 2b4+2=279>2 2b6=281 2b7+2=77>2 2e0=263
  2e1=6c 2e2=73 2e3=78 2e4=295 10fc=10dc 1d2c+2*2=41>1 1d2d=61,110000,65 1d30+4*3=44>3
  1d31+4*3=45>3 1d32=18e 1d35+2*3=49>3 1d3c+2*2=4f>1 1d3d=222 1d3f+2=52>2 1d41+2=55>2
  1d43+2*4=61>1 1d44+2=250>1 1d46=1d02 1d48+2=64>1 1d4a+2=259>2 1d4c+2*2=1d08>1 1d4d=67
  1d4f+2=6b>2 1d51=14b 1d52+2*4=6f>1 1d53=254 1d54+2=1d16>1 1d57+2=74>1 1d59=1d1d 1d5a=26f 1d5b=76
  1d5c=1d25 1d5d+3=3b2>1 1d60+2=3c6>1 1d78=43d 1d9b=252 1d9c=63 1d9d=255 1d9e=64,110000 1d9f=25c
  1da0=66 1da1+2=25f>2 1da3=265 1da4+3=268>1 1da7=1d7b 1da8+2*3=29d>2 1da9+2*8=26d>8 1daa=1d85
  1dac+2=271<1 1dae+3=272>1 1db2=278 1db3+2=282>1 1db5=1ab 1db6+2=289>1 1db8=1d1c 1db9+2=28b>1
  1dbb=7a 1dbc+3=290>1 1dbf=3b8 2070+3*4=30>4 2071=69 2075+3=35>1 2079=39 207a=2b 207b=2212
  207c=3d 207d+2=28>1 207f=6e 2120+2*2=73>1,6d 2c7d=56 3192=4e00 3193=4e8c 3194+3*2=4e09>1
  3195=56db 3197=4e2d 3199=7532 319a=4e59 319b=4e19 319c=4e01 319d=5929 319e=5730 319f=4eba
  a69c+2=44a>2 a770=a76f a7f8=68,335 a7f9=6f,110000,65 ab5c=a727 ab5d=ab37 ab5e=26b ab5f=ab52
  ab69=28d 1f16a+2=6d,63>1 1f16c=6d,72"),
  (.lowered, Composite.listOfText "
  1d62=69 1d63=72 1d64+2=75>1 1d66+2=3b2>1 1d68=3c1 1d69+2=3c6>1 2080+a=30>1 208a=2b 208b=2212
  208c=3d 208d+2=28>1 2090=61 2091=65 2092+2*8=6f>1 2093=78 2094=259 2095=68 2096+4=6b>1
  209b+2=73>1 2c7c=6a"),
  (.vertical, Composite.listOfText "
  309f=3088,308a 30ff=30b3,30c8 31b3=3127,110001 fe10=2c fe11+2=3001>1 fe13+2=3a>1 fe15=21 fe16=3f
  fe17+2=3016>1 fe19=2026 fe30=2025 fe31+2=2014<1 fe33+2=5f fe35+2=28>1 fe37+2=7b>2 fe39+2=3014>1
  fe3b+2=3010>1 fe3d+2=300a>1 fe3f+2=3008>1 fe41+4=300c>1 fe47+2=5b>2"),
  (.initial, Composite.listOfText "
  fb54=67b fb58+2*4=67e>2 fb60+2*8=67a<1 fb64=67f fb6c+2*4=6a4>2 fb74+2*4=684<1 fb7c+2*4=686>1
  fb90=6a9 fb94+2*4=6af>4 fb9c=6b1 fba2=6bb fba8=6c1 fbac=6be fbd5=6ad fbe6=6d0 fbe8=649
  fbf8=626,6d0 fbfb=626,649 fbfe=6cc fc97+3=626,62c>1 fc9a+2=626,645>2 fc9c+3=628,62c>1
  fc9f+2=628,645>2 fca1+3=62a,62c>1 fca4+5*2=62a>1,645 fca5=62a,647 fca7+2*2=62c>1,62d<1
  fcab=62e,62c fcad+3=633,62c>1 fcb0+2*3=633>2,645 fcb1+2=635,62d>1 fcb4+3=636,62c>1
  fcb7+2*2=636>2,645 fcb8+2*2=637>2,62d<1 fcbb+2*2=639>1,645 fcbc=63a,62c fcbe+3=641,62c>1
  fcc1+2*2=641>1,645 fcc2+2*2=642>1,62d<1 fcc5+2=643,62d>1 fcc7+2=643,644>1 fcc9+3=644,62c>1
  fccc+2=644,645>2 fcce+3=645,62c>1 fcd1+2*4=645>1,645 fcd2+3=646,62c>1 fcd6=646,647
  fcd7+2*3=647>3,62c fcd8=647,645 fcd9=647,670 fcdb+2=64a,62d>1 fcdd+2=64a,645>2 fd2d+3=634,62c>1
  fd30+2=634<1,645>2 fd32=634,647 fd33=637,645 fd50+2*3=62a,62c>1,645 fd52=62a,62d,62c
  fd54=62a,62e,645 fd55+3=62a,645,62c>1 fd59=62c,645,62d fd5c+2=633,62d<1,62c>1
  fd60+2=633,645,62d<1 fd63=633,645,645 fd65=635,62d,62d fd68+2*8=634>2,62d>1,645 fd6b=634,645,62e
  fd6d=634,645,645 fd72=637,645,62d fd73+2*4=637>2,645,645 fd7d=641,62e,645 fd83=644,62c,62c
  fd86+2*4=644>1,62e<1,645 fd88=644,645,62d fd89+2*3=645,62d<1,62c>1 fd8d+2*2=645,62c>2,645
  fd8e=645,62e,62c fd92=645,62c,62e fd93=647,645,62c fd94=647,645,645 fd95+2*3=646,62d<1,645
  fd9d=64a,645,645 fdb4=642,645,62d fdb5=644,62d,645 fdb8=646,62c,62d fdba=644,62c,645
  fdc3=643,645,645 fdc4=639,62c,645 fdc5=635,645,645 fe8b=626 fe91=628 fe97+5*4=62a>1
  feb3+8*4=633>1 fed3+7*4=641>1 fef3=64a 11a3a=11a2b 11a86+2=11a7c>1 11a88+2=11a7f>2 11d46=11d26"),
  (.medial, Composite.listOfText "
  fb55=67b fb59+2*4=67e>2 fb61+2*8=67a<1 fb65=67f fb6d+2*4=6a4>2 fb75+2*4=684<1 fb7d+2*4=686>1
  fb91=6a9 fb95+2*4=6af>4 fb9d=6b1 fba3=6bb fba9=6c1 fbad=6be fbd6=6ad fbe7=6d0 fbe9=649 fbff=6cc
  fcdf+3*2=626>2,645 fce0+3*2=626>2,647 fce5+2=62b,645>2 fce7+2=633,645>2 fce9+2=634,645>2
  fceb+2=643,644>1 fced+2=644>2,645 fcef=646,647 fcf0+2=64a,645>2 fcf2+3=64e>1,651
  fd34+3=633,62c>1 fd37+3=634,62c>1 fd3a+2=637>1,645 fe71=64b fe77+5*2=64e>1 fe8c=626 fe92=628
  fe98+5*4=62a>1 feb4+8*4=633>1 fed4+7*4=641>1 fef4=64a"),
  (.final, Composite.listOfText "
  3c2=3c3 5da+2*3=5db>3 5df+2*4=5e0>4 5e5=5e6 724=723 1bbe=1b8a 1bbf=1b99 31b4=3106 31b5=310a
  31b6+2=310e>1 31bb=310d fb51=671 fb53=67b fb57+2*4=67e>2 fb5f+2*8=67a<1 fb63=67f fb6b+2*4=6a4>2
  fb73+2*4=684<1 fb7b+2*4=686>1 fb83+2*2=68d<1 fb87=68e fb89=688 fb8b=698 fb8d=691 fb8f=6a9
  fb93+2*4=6af>4 fb9b=6b1 fb9f+2*2=6ba>1 fba5+2*2=6c0>1 fbab=6be fbaf+2*2=6d2>1 fbd4=6ad
  fbd8+2*2=6c7<1 fbdc+2*3=6c8>3 fbe1=6c5 fbe3=6c9 fbe5=6d0 fbeb=626,627 fbed=626,6d5 fbef=626,648
  fbf1+2*2=626,6c7<1 fbf5=626,6c8 fbf7=626,6d0 fbfa=626,649 fbfd=6cc fc64+2=626,631>1
  fc66+2=626,645>1 fc68+2=626,649>1 fc6a+2=628,631>1 fc6c+2=628,645>1 fc6e+2=628,649>1
  fc70+2=62a,631>1 fc72+2=62a,645>1 fc74+2=62a,649>1 fc76+2=62b,631>1 fc78+2=62b,645>1
  fc7a+2=62b,649>1 fc7c+2=641,649>1 fc7e+3*8=642>2,649 fc7f+3*8=642>2,64a fc80+2*8=643>2,627
  fc81+2=643,644>1 fc83+2=643,649>1 fc85+2*4=644>1,645 fc8a+2=646,631>1 fc8c+2=646,645>1
  fc90=649,670 fc91+2=64a,631>1 fc93+2=64a,645>1 fc95+2=64a,649>1 fd11+2=637,649>1
  fd13+2=639,649>1 fd15+2=63a,649>1 fd17+2=633,649>1 fd19+2=634,649>1 fd1b+2=62d,649>1
  fd1d+2=62c,649>1 fd1f+2=62e,649>1 fd21+2=635,649>1 fd23+2=636,649>1 fd25+3=634,62c>1
  fd28=634,645 fd29+2=634<1,631 fd2b+2=635>1,631 fd3c=627,64b fd51=62a,62d,62c fd58=62c,645,62d
  fd5a+2=62d,645,64a<1 fd5e=633,62c,649 fd5f=633,645,62d fd62+2*4=633>2,645,645 fd64=635,62d,62d
  fd67+2*8=634>2,62d>1,645 fd69=634,62c,64a fd6a=634,645,62e fd6c=634,645,645 fd6e=636,62d,649
  fd71=637,645,62d fd74+2*4=637>2,645,64a<1 fd75=639,62c,645 fd76+2*3=639>1,645,645
  fd7a+2=63a,645,64a<1 fd7c=641,62e,645 fd7e=642,645,62d fd7f=642,645,645 fd80=644,62d,645
  fd81+2=644,62d,64a<1 fd84=644,62c,62c fd85=644,62e,645 fd87=644,645,62d fd8b=645,62d,64a
  fd96+2*3=646,62d<1,649 fd97=646,62c,645 fd9a+2=646,645,64a<1 fd9c=64a,645,645
  fd9e+2*3=628>2,62e,64a fd9f+2=62a,62c,64a<1 fda2+2*4=62a>2,62e<1,649 fda3+2=62a,645,64a<1
  fda5+2*2=62c,645,64a<1 fda8+2=633>2,62e<1,649>1 fdaa+2=634>2,62d,64a fdac=644,62c,64a
  fdad+2*4=644>1,645,64a fdae+2=64a,62d<1,64a fdb0=64a,645,64a fdb2=642,645,64a fdb3=646,62d,64a
  fdb6=639,645,64a fdb7=643,645,64a fdb9=645,62e,64a fdbb=643,645,645 fdbc=644,62c,645
  fdbd=646,62c,62d fdbe+2=62c>1,62d<1,64a fdc0=645,62c,64a fdc1=641,645,64a fdc2=628,62d,64a
  fdc6=633,62e,64a fdc7=646,62c,64a fe82+5*2=622>1 fe8e+2*2=627>1 fe94+2*2=629>1 fe9a+5*4=62b>1
  feac+4*2=630>1 feb6+7*4=634>1 fed2+8*4=641>1 fef0+2*2=649>1 fef6+2*2=644,622>1
  fefa+2*2=644,625>2 1086d=1086e 10880+2*2=10881>2 10886+2*8=10887>8 1088c+3*4=1088d>4 10892=10893
  1089c=1089d 10f01+2*2=10f00>2 10f06=10f05 10f0f=10f0e 10f16=10f15 10f1b=10f1a 11a3b+4=11a2a>1
  11a8a+2=11a5c>1 11a8c=11a60 11a8d=11a6b 11a8e+2=11a6f>1 11a90=11a74 11a91+2=11a7c>1
  11a93+2=11a7f>2 11a95=11a7a 11d47=11d26"),
  (.isolated, Composite.listOfText "
  fb50=671 fb52=67b fb56+2*4=67e>2 fb5e+2*8=67a<1 fb62=67f fb6a+2*4=6a4>2 fb72+2*4=684<1
  fb7a+2*4=686>1 fb82+2*2=68d<1 fb86=68e fb88=688 fb8a=698 fb8c=691 fb8e=6a9 fb92+2*4=6af>4
  fb9a=6b1 fb9e+2*2=6ba>1 fba4+2*2=6c0>1 fbaa=6be fbae+2*2=6d2>1 fbd3=6ad fbd7+2*2=6c7<1
  fbdb+2*3=6c8>3 fbdd=677 fbe0=6c5 fbe2=6c9 fbe4=6d0 fbea=626,627 fbec=626,6d5 fbee=626,648
  fbf0+2*2=626,6c7<1 fbf4=626,6c8 fbf6=626,6d0 fbf9=626,649 fbfc=6cc fc00+2=626,62c>1 fc02=626,645
  fc03+2=626,649>1 fc05+3=628,62c>1 fc08=628,645 fc09+2=628,649>1 fc0b+3=62a,62c>1
  fc0e+3*4=62a>1,645 fc0f+2=62a,649>1 fc11+2*4=62b>1,62c>1 fc13+2=62b,649>1 fc17+2*2=62d>1,62c
  fc18+2*3=62d>1,645 fc1a+2*8=62e>8,62d<1 fc1c+3=633,62c>1 fc1f+2*2=633>2,645 fc20+3*3=635>1,62d
  fc24=636,62e fc25+2*2=636>1,645 fc28+3*2=638>1,645 fc29+2*2=639>1,62c fc2d+3=641,62c>1
  fc30+2*4=641>1,645 fc31+2=641,649>1 fc33=642,62d fc35+2=642,649>1 fc37=643,627 fc38+3=643,62c>1
  fc3b+2=643,644>1 fc3d+2=643,649>1 fc3f+3=644,62c>1 fc42=644,645 fc43+2=644,649>1
  fc45+3=645,62c>1 fc48=645,645 fc49+2=645,649>1 fc4b+3=646,62c>1 fc4e+2*4=646>1,645
  fc4f+2=646,649>1 fc51=647,62c fc53+2=647,649>1 fc55+3=64a,62c>1 fc58=64a,645 fc59+2=64a,649>1
  fc5b+2=630>1,670 fc5d=649,670 fc5e+5=64c>1,651 fc63=651,670 fcf5+2=637,649>1 fcf7+2=639,649>1
  fcf9+2=63a,649>1 fcfb+2=633,649>1 fcfd+2=634,649>1 fcff+2=62d,649>1 fd01+2=62c,649>1
  fd03+2=62e,649>1 fd05+2=635,649>1 fd07+2=636,649>1 fd09+3=634,62c>1 fd0c=634,645
  fd0d+2=634<1,631 fd0f+2=635>1,631 fd3d=627,64b fdf0=635,644,6d2 fdf1=642,644,6d2
  fdf2=627,644,644,647 fdf3=627,643,628,631 fdf4=645,62d,645,62f fdf5=635,644,639,645
  fdf6=631,633,648,644 fdf7=639,644,64a,647 fdf8=648,633,644,645 fdf9=635,644,649
  fdfa=635,644,649,20,627,644,644,647,20,639,644,64a,647,20,648,633,644,645
  fdfb=62c,644,20,62c,644,627,644,647 fdfc=631,6cc,627,644 fe70+8*2=64b>1 fe80+2=621>1
  fe83+4*2=623>1 fe8d+2*2=627>1 fe93+2*2=629>1 fe99+5*4=62b>1 feab+4*2=630>1 feb5+7*4=634>1
  fed1+8*4=641>1 feef+2*2=649>1 fef5+2*2=644,622>1 fef9+2*2=644,625>2"),
  (.unbroken, Composite.listOfText "
  a0=20 f0c=f0b 2007=20 2011=2010 202f=20"),
  (.square, Composite.listOfText "
  3250=50,54,45 32cc=48,67 32cd=65,72,67 32ce=65,56 32cf=4c,54,44 32ff=4ee4,548c
  3300=30a2,30d1,30fc,30c8 3301=30a2,30eb,30d5,30a1 3302=30a2,30f3,30da,30a2 3303=30a2,30fc,30eb
  3304=30a4,30cb,30f3,30b0 3305=30a4,30f3,30c1 3306=30a6,30a9,30f3 3307=30a8,30b9,30af,30fc,30c9
  3308=30a8,30fc,30ab,30fc 3309=30aa,30f3,30b9 330a=30aa,30fc,30e0 330b=30ab,30a4,30ea
  330c=30ab,30e9,30c3,30c8 330d=30ab,30ed,30ea,30fc 330e=30ac,30ed,30f3 330f=30ac,30f3,30de
  3310=30ae,30ac 3311=30ae,30cb,30fc 3312=30ad,30e5,30ea,30fc 3313=30ae,30eb,30c0,30fc
  3314=30ad,30ed 3315=30ad,30ed,30b0,30e9,30e0 3316=30ad,30ed,30e1,30fc,30c8,30eb
  3317=30ad,30ed,30ef,30c3,30c8 3318=30b0,30e9,30e0 3319=30b0,30e9,30e0,30c8,30f3
  331a=30af,30eb,30bc,30a4,30ed 331b=30af,30ed,30fc,30cd 331c=30b1,30fc,30b9 331d=30b3,30eb,30ca
  331e=30b3,30fc,30dd 331f=30b5,30a4,30af,30eb 3320=30b5,30f3,30c1,30fc,30e0
  3321=30b7,30ea,30f3,30b0 3322=30bb,30f3,30c1 3323=30bb,30f3,30c8 3324=30c0,30fc,30b9
  3325=30c7,30b7 3326=30c9,30eb 3327=30c8,30f3 3328=30ca,30ce 3329=30ce,30c3,30c8
  332a=30cf,30a4,30c4 332b=30d1,30fc,30bb,30f3,30c8 332c=30d1,30fc,30c4 332d=30d0,30fc,30ec,30eb
  332e=30d4,30a2,30b9,30c8,30eb 332f=30d4,30af,30eb 3330=30d4,30b3 3331=30d3,30eb
  3332=30d5,30a1,30e9,30c3,30c9 3333=30d5,30a3,30fc,30c8 3334=30d6,30c3,30b7,30a7,30eb
  3335=30d5,30e9,30f3 3336=30d8,30af,30bf,30fc,30eb 3337=30da,30bd 3338=30da,30cb,30d2
  3339=30d8,30eb,30c4 333a=30da,30f3,30b9 333b=30da,30fc,30b8 333c=30d9,30fc,30bf
  333d=30dd,30a4,30f3,30c8 333e=30dc,30eb,30c8 333f=30db,30f3 3340=30dd,30f3,30c9
  3341=30db,30fc,30eb 3342=30db,30fc,30f3 3343=30de,30a4,30af,30ed 3344=30de,30a4,30eb
  3345=30de,30c3,30cf 3346=30de,30eb,30af 3347=30de,30f3,30b7,30e7,30f3 3348=30df,30af,30ed,30f3
  3349=30df,30ea 334a=30df,30ea,30d0,30fc,30eb 334b=30e1,30ac 334c=30e1,30ac,30c8,30f3
  334d=30e1,30fc,30c8,30eb 334e=30e4,30fc,30c9 334f=30e4,30fc,30eb 3350=30e6,30a2,30f3
  3351=30ea,30c3,30c8,30eb 3352=30ea,30e9 3353=30eb,30d4,30fc 3354=30eb,30fc,30d6,30eb
  3355=30ec,30e0 3356=30ec,30f3,30c8,30b2,30f3 3357=30ef,30c3,30c8 3371=68,50,61 3372=64,61
  3373=41,55 3374=62,61,72 3375=6f,56 3376=70,63 3377=64,6d 3378+2=64,6d,b2>1 337a=49,55
  337b=5e73,6210 337c=662d,548c 337d=5927,6b63 337e=660e,6cbb 337f=682a,5f0f,4f1a,793e 3380=70,41
  3381+2*2=6e<1,41 3382=3bc,41 3384=6b,41 3385+2=4b>2,42 3387=47,42 3388=63,61,6c 3389=6b,63,61,6c
  338a=70,46 338b=6e,46 338c=3bc,46 338d=3bc,67 338e=6d,67 338f=6b,67 3390=48,7a 3391=6b,48,7a
  3392=4d,48,7a 3393=47,48,7a 3394=54,48,7a 3395=3bc,2113 3396=6d,2113 3397=64,2113 3398=6b,2113
  3399=66,6d 339a+2*2=6e<1,6d 339b=3bc,6d 339d=63,6d 339e=6b,6d 339f+2*4=6d,6d,b2>1
  33a0+2*4=63,6d,b2>1 33a1+2*4=6d,b2>1 33a2+2*4=6b,6d,b2>1 33a7=6d,2215,73 33a8=6d,2215,73,b2
  33a9=50,61 33aa=6b,50,61 33ab=4d,50,61 33ac=47,50,61 33ad=72,61,64 33ae=72,61,64,2215,73
  33af=72,61,64,2215,73,b2 33b0=70,73 33b1+2*2=6e<1,73 33b2=3bc,73 33b4=70,56 33b5+2*2=6e<1,56
  33b6=3bc,56 33b8+2*3=6b>3,56>1 33b9=4d,56 33ba=70,57 33bc=3bc,57 33bd=6d,57 33be=6b,57
  33bf=4d,57 33c0=6b,3a9 33c1=4d,3a9 33c2=61,2e,6d,2e 33c3=42,71 33c4+2=63,63>1 33c6=43,2215,6b,67
  33c7=43,6f,2e 33c8=64,42 33c9=47,79 33ca=68,61 33cb=48,50 33cc=69,6e 33cd+2=4b,4b>2
  33cf+2*4=6b>1,74>4 33d0+2=6c,6d>1 33d2=6c,6f,67 33d4=6d,62 33d5=6d,69,6c 33d6=6d,6f,6c
  33d7=50,48 33d8=70,2e,6d,2e 33d9=50,50,4d 33da=50,52 33db=73,72 33dc=53,76 33dd=57,62
  33de=56,2215,6d 33df=41,2215,6d 33ff=67,61,6c 1f130+1a=41>1 1f14a=48,56 1f14b=4d,56 1f14c=53,44
  1f14d=53,53 1f14e=50,50,56 1f14f=57,43 1f190=44,4a 1f199=55,50,21 1f19b=33,44
  1f19c=32,6e,64,20,53,63,72 1f19d+2=32>2,4b 1f19f=38,4b 1f1a0+2=35>2,2e,31 1f1a2=32,32,2e,32
  1f1a3=36,30,50 1f1a4=31,32,30,50 1f1a5=64 1f1a6=48,63 1f1a7=48,64,52 1f1a8=48,69,20,52,65,73
  1f1a9=4c,6f,73,73,6c,65,73,73 1f200=307b,304b 1f201=30b3,30b3 1f202=30b5 1f210=624b 1f211=5b57
  1f212=53cc 1f213=30c7 1f214=4e8c 1f215=591a 1f216=89e3 1f217=5929 1f218=4ea4 1f219=6620
  1f21a=7121 1f21b=6599 1f21c=524d 1f21d=5f8c 1f21e=518d 1f21f=65b0 1f220=521d 1f221=7d42
  1f222=751f 1f223=8ca9 1f224=58f0 1f225=5439 1f226=6f14 1f227=6295 1f228=6355 1f229=4e00
  1f22a=4e09 1f22b=904a 1f22c=5de6 1f22d=4e2d 1f22e=53f3 1f22f=6307 1f230=8d70 1f231=6253
  1f232=7981 1f233=7a7a 1f234=5408 1f235=6e80 1f236+2=6709<1 1f238=7533 1f239=5272 1f23a=55b6
  1f23b=914d"),
  (.squareCapital, Composite.listOfText "
  1f170+1a=61>1 1f18a=70 1f18b=49,43 1f18c=50,41 1f18d=53,41 1f18e=41,42 1f18f=57,43 1f191=43,4c
  1f192=43,4f,4f,4c 1f193=46,52,45,45 1f194=49,44 1f195=4e,45,57 1f196=4e,47 1f197=4f,4b
  1f198=53,4f,53 1f19a=56,53 1f1aa=53,48,56 1f1ab=55,48,44 1f1ac=56,4f,44"),
  (.fraction, Composite.listOfText "
  bc+2*2=31>2,2044,34 bd=31,2044,32 2150+2=31,2044,37>2 2152=31,2044,31,30 2153+2=31>1,2044,33
  2155+4=31>1,2044,35 2159+2*2=31,2044,36>2 215a+2*3=35,2044,36>2 215c=33,2044,38 215e=37,2044,38
  215f=31,2044 2189=30,2044,33")]

/-- What a character counts as, with the form that its members take. -/
def members? (c : Nat) : Option (Option Form × List Nat) :=
  match composed.findSome? (·.members? c) with
  | some ms => some (none, ms)
  | none => variants.findSome? fun (f, ks) => (ks.findSome? (·.members? c)).map (some f, ·)

end CodeTemplate.Text.Collation
