/-! Message numbers and the bits of a user mode. -/

namespace OpenNap

def msgServerError : Nat := 0
def msgClientLogin : Nat := 2
def msgServerEmail : Nat := 3
def msgClientLoginRegister : Nat := 6
def msgServerBadNick : Nat := 10
def msgClientAddFile : Nat := 100
def msgClientRemoveFile : Nat := 102
def msgClientSearch : Nat := 200
def msgServerSearchResult : Nat := 201
def msgServerSearchEnd : Nat := 202
def msgClientDownload : Nat := 203
def msgServerFileReady : Nat := 204
def msgClientPrivmsg : Nat := 205
def msgServerSendError : Nat := 206
def msgClientAddHotlist : Nat := 207
def msgClientAddHotlistSeq : Nat := 208
def msgServerUserSignon : Nat := 209
def msgServerUserSignoff : Nat := 210
def msgServerStats : Nat := 214
def msgClientDownloadStart : Nat := 218
def msgClientDownloadEnd : Nat := 219
def msgClientUploadStart : Nat := 220
def msgClientUploadEnd : Nat := 221
def msgServerHotlistAck : Nat := 301
def msgClientRemoveHotlist : Nat := 303
def msgServerDisconnecting : Nat := 316
def msgClientJoin : Nat := 400
def msgClientPart : Nat := 401
def msgClientPublic : Nat := 402
def msgServerPublic : Nat := 403
def msgServerNosuch : Nat := 404
def msgServerJoinAck : Nat := 405
def msgServerJoin : Nat := 406
def msgServerPart : Nat := 407
def msgServerChannelUserList : Nat := 408
def msgServerChannelUserListEnd : Nat := 409
def msgServerTopic : Nat := 410
def msgClientChannelBan : Nat := 422
def msgClientChannelUnban : Nat := 423
def msgClientDownloadFirewall : Nat := 500
def msgClientSetUserLevel : Nat := 606
def msgServerUploadRequest : Nat := 607
def msgClientKill : Nat := 610
def msgClientNuke : Nat := 611
def msgClientBan : Nat := 612
def msgClientAlterPort : Nat := 613
def msgClientUnban : Nat := 614
def msgServerMotd : Nat := 621
def msgClientMuzzle : Nat := 622
def msgClientUnmuzzle : Nat := 623
def msgClientAlterSpeed : Nat := 625
def msgClientWallop : Nat := 627
def msgClientAnnounce : Nat := 628
def msgClientCloak : Nat := 652
def msgClientChangeSpeed : Nat := 700
def msgClientChangePass : Nat := 701
def msgClientChangeDataPort : Nat := 703
def msgServerGhost : Nat := 748
def msgClientAlterPass : Nat := 753
def msgClientClearChannel : Nat := 820
def msgClientSetChanLevel : Nat := 823
def msgClientEmote : Nat := 824
def msgServerNamesList : Nat := 825
def msgClientChannelLimit : Nat := 826
def msgClientKick : Nat := 829
def msgClientNamesList : Nat := 830
def msgClientAddDirectory : Nat := 870
def msgClientQuit : Nat := 10000
def msgServerLogin : Nat := 10010
def msgServerLoginAck : Nat := 10011
def msgServerUserSharing : Nat := 10012
def msgServerReginfo : Nat := 10014
def msgServerRemoteSearch : Nat := 10015
def msgServerRemoteSearchResult : Nat := 10016
def msgServerRemoteSearchEnd : Nat := 10017
def msgServerEncapsulated : Nat := 10018
def msgServerLinkInfo : Nat := 10019
def msgServerQuit : Nat := 10020
def msgServerNotifyMods : Nat := 10021
def msgClientDisconnect : Nat := 10101
def msgClientRegisterUser : Nat := 10200
def msgClientKickUser : Nat := 10202
def msgClientOp : Nat := 10204
def msgClientDeop : Nat := 10205
def msgClientDropChannel : Nat := 10207
def msgClientChannelMode : Nat := 10209
def msgClientChannelInvite : Nat := 10210
def msgClientChannelVoice : Nat := 10211
def msgClientChannelUnvoice : Nat := 10212
def msgClientChannelMuzzle : Nat := 10213
def msgClientChannelUnmuzzle : Nat := 10214
def msgClientShareFile : Nat := 10300

def errorMode : Nat := 1
def banlogMode : Nat := 2
def changelogMode : Nat := 4
def killlogMode : Nat := 8
def levellogMode : Nat := 16
def serverlogMode : Nat := 32
def muzzlelogMode : Nat := 64
def walloplogMode : Nat := 256
def cloaklogMode : Nat := 512

/-- `LOGALL_MODE`: every one of the eleven bits. -/
def logallMode : Nat := 2047

end OpenNap
